import Cdcm.Backend.RepliesDue

/-!
# The loop over the postponed actions

The function `handle_postponed_actions` calls the action that expires first as long as it
has expired.  A call that returns takes the action out of the queue or takes one of its
runs, which does not depend on the clock; so the loop comes to an end, unless an exception
leaves it before.
-/

namespace Cdcm.Backend

open Json Protocol Zmq Machine

/-- The plugin of an action is found by its name, and reads the id in its message. -/
theorem readId_eq_some {env : WorkerEnvironment} {actionMessage : Value} {id : ByteString} :
    readId env actionMessage = .ok (some id) ↔
      ∃ members name getMessage, actionMessage.getObject = .ok members ∧
        Object.firstKey members = .ok name ∧ env.find name = some getMessage ∧
        getMessage actionMessage = .ok id := by
  rw [readId]
  cases isObject : actionMessage.getObject with
  | error fault => simp [bind, Except.bind]
  | ok members =>
      cases isFirst : Object.firstKey members with
      | error fault => simp [bind, Except.bind, isFirst]
      | ok name =>
          cases found : env.find name with
          | none => simp [bind, Except.bind, pure, Except.pure, isFirst, found]
          | some getMessage =>
              cases read : getMessage actionMessage with
              | error fault => simp [bind, Except.bind, isFirst, found, read]
              | ok other => simp [bind, Except.bind, pure, Except.pure, isFirst, found, read]

/-- The clock of the loop, while the worker is in it. -/
def Phase.clock : Phase → Option Int
  | .handling now => some now
  | .polling | .serving _ => none

theorem Phase.clock_eq_some {phase : Phase} {now : Int} :
    phase.clock = some now ↔ phase = .handling now := by
  cases phase <;> simp [Phase.clock]

/-- How often the actions can be called, the last calls included. -/
def runsLeft (actions : Multiset PostponedAction) : Nat :=
  (actions.map fun pa => pa.remainingRuns.val + 1).sum

@[simp] theorem runsLeft_cons (pa : PostponedAction) (actions : Multiset PostponedAction) :
    runsLeft (pa ::ₘ actions) = pa.remainingRuns.val + 1 + runsLeft actions := by
  rw [runsLeft, Multiset.map_cons, Multiset.sum_cons, runsLeft]

/-- An iteration removes an action, or it takes one of its runs and no more than there
are. -/
inductive Shortened (top : PostponedAction) (before after : Multiset PostponedAction) :
    Prop where
  | removed (isGone : before = top ::ₘ after)
  | decreased (shorter : PostponedAction) (rest : Multiset PostponedAction)
      (isBefore : before = top ::ₘ rest) (isAfter : after = shorter ::ₘ rest)
      (sameId : shorter.id = top.id)
      (takes : shorter.remainingRuns.val + 1 = top.remainingRuns.val)

theorem Shortened.runsLeft_lt {top : PostponedAction} {before after : Multiset PostponedAction}
    (shortened : Shortened top before after) : runsLeft after < runsLeft before := by
  cases shortened with
  | removed isGone =>
      rw [isGone, runsLeft_cons]
      omega
  | decreased shorter rest isBefore isAfter _ takes =>
      rw [isBefore, isAfter, runsLeft_cons, runsLeft_cons]
      omega

/-- Waiting again takes one run, when there is one. -/
theorem again_remainingRuns (now : Int) {pa : PostponedAction} (left : 0 < pa.remainingRuns) :
    (PostponedActionsQueue.again now pa).remainingRuns.val + 1 = pa.remainingRuns.val := by
  have positive : pa.remainingRuns ≠ 0 := Fin.pos_iff_ne_zero.mp left
  have less := Fin.val_sub_one_of_ne_zero positive
  have some : 0 < pa.remainingRuns.val := left
  change (pa.remainingRuns - 1).val + 1 = pa.remainingRuns.val
  omega

namespace MessageWorker

/-! ## The loop -/

section Loop

variable (env : WorkerEnvironment) (worker : MessageWorker)

/-- The action that the loop calls next: the first one, when it has expired. -/
def expired (now : Int) : Option PostponedAction :=
  worker.postponedActions.top.filter fun top => top.expirationTime ≤ now

/-- How `handle_postponed_actions` ended: the iterations that it made, and the worker
unless an exception left. -/
structure Handled where
  iterations : Nat
  worker : Option MessageWorker

/-- `handle_postponed_actions` behind some iterations, with the calls of all of them by
position.  There is nothing when it needs more iterations than the fuel. -/
def handlePostponedActions (now : Int) (acts : Nat → ActInput) :
    (fuel made : Nat) → MessageWorker → Option Handled
  | fuel, made, worker =>
      match worker.expired now with
      | none => some ⟨made, some { worker with phase := .polling }⟩
      | some top =>
          match fuel with
          | 0 => none
          | fuel + 1 =>
              match worker.retry env (acts made) top with
              | none => some ⟨made + 1, none⟩
              | some next => handlePostponedActions now acts fuel (made + 1) next

end Loop

variable {env : WorkerEnvironment} {worker next : MessageWorker}

theorem expired_eq_some {now : Int} {top : PostponedAction} :
    worker.expired now = some top ↔
      worker.postponedActions.top = some top ∧ top.expirationTime ≤ now := by
  rw [expired, Option.filter_eq_some_iff, decide_eq_true_eq]

/-- A turn of the loop is a call of the action that has expired, or the end. -/
theorem handlePostponedAction_eq (now : Int) (input : ActInput) :
    worker.handlePostponedAction env now input =
      match worker.expired now with
      | some top => worker.retry env input top
      | none => some { worker with phase := .polling } := by
  rw [handlePostponedAction, expired]
  cases worker.postponedActions.top with
  | none => rfl
  | some top =>
      by_cases due : top.expirationTime ≤ now
      · simp [due, Option.filter]
      · simp [due, Option.filter]

/-- The turn that ends the loop. -/
theorem step_ends {now : Int} (handling : worker.phase = .handling now)
    (noneExpired : worker.expired now = none) (input : ActInput) :
    worker.step env (.retry input) = some { worker with phase := .polling } := by
  simp only [MessageWorker.step, handling, handlePostponedAction_eq, noneExpired]

/-- An iteration calls the action that has expired. -/
theorem step_calls {now : Int} {top : PostponedAction} (handling : worker.phase = .handling now)
    (isExpired : worker.expired now = some top) (input : ActInput) :
    worker.step env (.retry input) = worker.retry env input top := by
  simp only [MessageWorker.step, handling, handlePostponedAction_eq, isExpired]

/-! ## One iteration -/

/-- What a call of a postponed action that returns does, by its status and the runs that
are left. -/
inductive Returned (env : WorkerEnvironment) (worker : MessageWorker) (input : ActInput)
    (top : PostponedAction) : MessageWorker → Prop where
  | again {respStatus : RespStatus} {result : Option Value}
      (outcome : input.outcome = .returns .postponed respStatus result)
      (left : 0 < top.remainingRuns) :
      Returned env worker input top { worker with
        postponedActions := (worker.postponedActions.decrementRunsAndUpdateExpiration
          (toTimeT input.now) top.id).1 }
  | answered {status : ActionStatus} {respStatus : RespStatus} {result : Option Value}
      {sent : Sent} (outcome : input.outcome = .returns status respStatus result)
      (spent : status = .postponed → top.remainingRuns = 0)
      (identity : sent.identity = worker.identity)
      (isAnswered : sent.answered = some
        ⟨top.replyTo, top.header, [⟨some top.actionMessage, ⟨top.id, respStatus, result⟩⟩]⟩)
      (carries : sent.Carries env
        ⟨top.replyTo, top.header, [⟨some top.actionMessage, ⟨top.id, respStatus, result⟩⟩]⟩) :
      Returned env worker input top { worker with
        journal := worker.journal ++ [sent]
        postponedActions := (worker.postponedActions.removeById top.id).1 }

theorem retry_returned {input : ActInput} {top : PostponedAction}
    (reads : readId env top.actionMessage = .ok (some top.id))
    (retried : worker.retry env input top = some next) :
    Returned env worker input top next := by
  rw [retry, reads] at retried
  simp only [Except.toOption, Option.bind_eq_bind, Option.bind_some] at retried
  cases outcome : input.outcome with
  | throws =>
      rw [outcome] at retried
      contradiction
  | returns status respStatus result =>
      rw [outcome] at retried
      dsimp only at retried
      split at retried
      next waits =>
        obtain rfl := Option.some.inj retried
        exact .again (waits.1 ▸ outcome) waits.2
      next notAgain =>
        simp only [Option.bind_eq_some_iff, Option.some.injEq] at retried
        obtain ⟨body, printed, replied, sent, rfl⟩ := retried
        rw [sendToBroker_spec sent]
        refine .answered outcome (fun waits => ?_) rfl rfl ⟨body, printed, rfl⟩
        exact Fin.le_zero_iff.mp (not_lt.mp fun left => notAgain ⟨waits, left⟩)

/-- An iteration that returns leaves less to do, whatever the clock says. -/
theorem Returned.shortened {input : ActInput} {top : PostponedAction}
    (isTop : top ∈ worker.postponedActions.actions)
    (returned : Returned env worker input top next) :
    Shortened top worker.postponedActions.actions next.postponedActions.actions := by
  cases returned with
  | again _ left =>
      obtain ⟨rest, before, after⟩ :=
        PostponedActionsQueue.actions_decrement (toTimeT input.now) isTop
      exact .decreased _ rest before after rfl (again_remainingRuns _ left)
  | answered => exact .removed (PostponedActionsQueue.actions_removeById isTop)

/-- An iteration keeps the phase. -/
theorem Returned.phase {input : ActInput} {top : PostponedAction}
    (returned : Returned env worker input top next) : next.phase = worker.phase := by
  cases returned <;> rfl

/-! ## Actions that can be read again -/

/-- An iteration keeps what can be read. -/
theorem Returned.readsBack {input : ActInput} {top : PostponedAction}
    (returned : Returned env worker input top next)
    (isTop : top ∈ worker.postponedActions.actions)
    (readsBack : ReadsBack env worker.postponedActions) :
    ReadsBack env next.postponedActions := by
  cases returned with
  | again _ _ =>
      exact PostponedActionsQueue.forall_decrement (toTimeT input.now) isTop id readsBack
  | answered =>
      exact fun pa isIn => readsBack pa (PostponedActionsQueue.mem_removeById isIn)

/-- What is sent in `recv` leaves the queue as it is. -/
theorem sendReply_postponedActions (sent : worker.sendReply = some next) :
    next.postponedActions = worker.postponedActions := by
  have spec := sendReply_spec sent
  split at spec
  next => rw [spec.2]
  next =>
    rw [spec]
    split <;> rfl

/-- A served request leaves the queue as its actions made it. -/
theorem serve_executes {input : ServeInput} {request : Zmsg}
    (served : worker.serve env input request = some next) :
    ∃ body executed hdr answers, request.body = some body ∧
      worker.execute env input (cStr body) = some (executed, hdr, answers) ∧
      next.postponedActions = executed.postponedActions := by
  simp only [serve, Option.bind_eq_bind, Option.bind_eq_some_iff, Prod.exists, Option.pure_def,
    Option.some.injEq] at served
  obtain ⟨body, isBody, executed, hdr, answers, isExecuted, replied, sent, rfl⟩ := served
  have built := @buildReply_keeps env executed hdr answers
  exact ⟨body, executed, hdr, answers, isBody, isExecuted,
    (sendReply_postponedActions sent).trans built.postponedActions⟩

/-- Every step keeps what can be read: an action is in the queue under the id in its
message, and its plugin is known. -/
theorem step_readsBack {event : WorkerEvent} (readsBack : ReadsBack env worker.postponedActions)
    (stepped : worker.step env event = some next) : ReadsBack env next.postponedActions := by
  rcases step_cases stepped with ⟨input, now, rfl, _, handled⟩ | ⟨input, rfl, _, polled⟩ |
    ⟨input, request, rfl, _, served⟩
  · rcases handlePostponedAction_cases handled with rfl | ⟨top, isTop, retried⟩
    · exact readsBack
    · exact (retry_returned (readsBack top isTop) retried).readsBack isTop readsBack
  · exact (poll_spec polled).postponedActions ▸ readsBack
  · obtain ⟨_, executed, _, _, _, isExecuted, queue⟩ := serve_executes served
    exact queue ▸ (execute_due readsBack isExecuted).1

theorem readsBack_reached {identity : ByteString} {connect handle : Int}
    {first : MessageWorker} {events : List WorkerEvent}
    (started : start env identity connect handle = some first)
    (run : Run (MessageWorker.step env) Unguarded first events worker) :
    ReadsBack env worker.postponedActions := by
  refine run.invariant (fun state => ReadsBack env state.postponedActions) ?_
    fun _ _ _ readsBack _ stepped => step_readsBack readsBack stepped
  obtain ⟨heartbeatAt, now, rfl⟩ := start_spec started
  exact fun pa isIn => absurd isIn (Multiset.notMem_zero pa)

/-! ## Termination -/

theorem expired_mem {now : Int} {top : PostponedAction}
    (isExpired : worker.expired now = some top) : top ∈ worker.postponedActions.actions :=
  PostponedActionsQueue.top_mem (expired_eq_some.mp isExpired).1

/-- Without an action that has expired, the loop is at its end. -/
theorem handlePostponedActions_idle {now : Int} {acts : Nat → ActInput} {fuel made : Nat}
    (idle : worker.expired now = none) :
    handlePostponedActions env now acts fuel made worker =
      some ⟨made, some { worker with phase := .polling }⟩ := by
  cases fuel <;> rw [handlePostponedActions, idle]

/-- The loop ends within the runs that are left. -/
theorem handlePostponedActions_within (now : Int) (acts : Nat → ActInput) (fuel made : Nat)
    (readsBack : ReadsBack env worker.postponedActions)
    (enough : runsLeft worker.postponedActions.actions ≤ fuel) :
    ∃ handled, handlePostponedActions env now acts fuel made worker = some handled ∧
      handled.iterations ≤ made + runsLeft worker.postponedActions.actions := by
  induction fuel generalizing worker made with
  | zero =>
      cases isExpired : worker.expired now with
      | none => exact ⟨_, handlePostponedActions_idle isExpired, Nat.le_add_right _ _⟩
      | some top =>
          have before := PostponedActionsQueue.actions_removeById (expired_mem isExpired)
          rw [before, runsLeft_cons] at enough
          omega
  | succ fuel ih =>
      cases isExpired : worker.expired now with
      | none => exact ⟨_, handlePostponedActions_idle isExpired, Nat.le_add_right _ _⟩
      | some top =>
          rw [handlePostponedActions, isExpired]
          have isTop := expired_mem isExpired
          dsimp only
          cases retried : worker.retry env (acts made) top with
          | none =>
              have before := PostponedActionsQueue.actions_removeById isTop
              refine ⟨_, rfl, ?_⟩
              rw [before, runsLeft_cons]
              dsimp only
              omega
          | some next =>
              have returned := retry_returned (readsBack top isTop) retried
              have less := (returned.shortened isTop).runsLeft_lt
              obtain ⟨handled, isHandled, few⟩ :=
                ih (made + 1) (returned.readsBack isTop readsBack) (by omega)
              exact ⟨handled, isHandled, by omega⟩

/-- The turn that ends the loop. -/
theorem last_turn {now : Int} {acts : Nat → ActInput} {fuel made : Nat} {handled : Handled}
    (handling : worker.phase = .handling now) (isExpired : worker.expired now = none)
    (isHandled : handlePostponedActions env now acts fuel made worker = some handled)
    (returns : handled.worker = some next) :
    made ≤ handled.iterations ∧ next.phase = .polling ∧
      Run (MessageWorker.step env) Unguarded worker
        ((List.range' made (handled.iterations + 1 - made)).map fun turn => .retry (acts turn))
        next := by
  obtain rfl := Option.some.inj ((handlePostponedActions_idle isExpired).symm.trans isHandled)
  obtain rfl := Option.some.inj returns
  dsimp only
  have one : made + 1 - made = 1 := by omega
  rw [one]
  exact ⟨le_rfl, rfl, .cons trivial (step_ends handling isExpired _) .nil⟩

/-- The loop is a run of the worker: its iterations, and the turn that ends it. -/
theorem handlePostponedActions_run {now : Int} {acts : Nat → ActInput} {fuel made : Nat}
    {handled : Handled} (handling : worker.phase = .handling now)
    (readsBack : ReadsBack env worker.postponedActions)
    (isHandled : handlePostponedActions env now acts fuel made worker = some handled)
    (returns : handled.worker = some next) :
    made ≤ handled.iterations ∧ next.phase = .polling ∧
      Run (MessageWorker.step env) Unguarded worker
        ((List.range' made (handled.iterations + 1 - made)).map fun turn => .retry (acts turn))
        next := by
  induction fuel generalizing worker made with
  | zero =>
      cases isExpired : worker.expired now with
      | none => exact last_turn handling isExpired isHandled returns
      | some top =>
          rw [handlePostponedActions, isExpired] at isHandled
          contradiction
  | succ fuel ih =>
      cases isExpired : worker.expired now with
      | none => exact last_turn handling isExpired isHandled returns
      | some top =>
          rw [handlePostponedActions, isExpired] at isHandled
          have isTop := expired_mem isExpired
          dsimp only at isHandled
          cases retried : worker.retry env (acts made) top with
          | none =>
              rw [retried] at isHandled
              obtain rfl := Option.some.inj isHandled
              contradiction
          | some second =>
              rw [retried] at isHandled
              have returned := retry_returned (readsBack top isTop) retried
              obtain ⟨later, phase, rest⟩ := ih (returned.phase.trans handling)
                (returned.readsBack isTop readsBack) isHandled
              have stepped := (step_calls handling isExpired (acts made)).trans retried
              have turns : handled.iterations + 1 - made =
                  handled.iterations + 1 - (made + 1) + 1 := by omega
              refine ⟨by omega, phase, ?_⟩
              rw [turns, List.range'_succ, List.map_cons]
              exact .cons trivial stepped rest

/-- `handle_postponed_actions` comes to an end in every worker that is reached.  The action
that it takes is found by its name, under the id in its message; every iteration that is
not left by an exception removes it, or takes one of its runs and no more than there are;
so the iterations are no more than the runs that are left, whatever the calls and the clocks
are, and the loop then ends in the poll. -/
theorem handlePostponedActions_terminates {identity : ByteString} {connect handle now : Int}
    {first : MessageWorker} {events : List WorkerEvent}
    (started : start env identity connect handle = some first)
    (run : Run (MessageWorker.step env) Unguarded first events worker)
    (handling : worker.phase = .handling now) :
    (∀ top, worker.postponedActions.top = some top →
      ∃ members name getMessage, top.actionMessage.getObject = .ok members ∧
        Object.firstKey members = .ok name ∧ env.find name = some getMessage ∧
        getMessage top.actionMessage = .ok top.id) ∧
    (∀ top input next, worker.expired now = some top →
      worker.step env (.retry input) = some next →
      next.phase = .handling now ∧
        Shortened top worker.postponedActions.actions next.postponedActions.actions) ∧
    ∀ acts, ∃ handled, handlePostponedActions env now acts
        (runsLeft worker.postponedActions.actions) 0 worker = some handled ∧
      handled.iterations ≤ runsLeft worker.postponedActions.actions ∧
      ∀ next, handled.worker = some next → next.phase = .polling ∧
        Run (MessageWorker.step env) Unguarded worker
          ((List.range (handled.iterations + 1)).map fun turn => .retry (acts turn)) next := by
  have readsBack := readsBack_reached started run
  refine ⟨fun top isTop => ?_, fun top input next isExpired stepped => ?_, fun acts => ?_⟩
  · exact readId_eq_some.mp (readsBack top (PostponedActionsQueue.top_mem isTop))
  · have isTop := expired_mem isExpired
    rw [step_calls handling isExpired] at stepped
    have returned := retry_returned (readsBack top isTop) stepped
    exact ⟨returned.phase.trans handling, returned.shortened isTop⟩
  · obtain ⟨handled, isHandled, few⟩ :=
      handlePostponedActions_within now acts _ 0 readsBack le_rfl
    refine ⟨handled, isHandled, by rwa [Nat.zero_add] at few, fun next returns => ?_⟩
    obtain ⟨_, phase, rest⟩ := handlePostponedActions_run handling readsBack isHandled returns
    rw [Nat.sub_zero, ← List.range_eq_range'] at rest
    exact ⟨phase, rest⟩

/-- A worker with an action that has expired, and four calls of it at most. -/
def expiredEvents : List WorkerEvent :=
  [.retry postpones, requestFrom "c" (sampleBody [pingAction "1"]) 0,
    .serve ⟨fun _ => postpones, 5000⟩]

theorem expired_action_terminates :
    ∃ first worker, start collisionEnv (text "w1") 0 0 = some first ∧
      Run (MessageWorker.step collisionEnv) Unguarded first expiredEvents worker ∧
      worker.phase = .handling 5 ∧ (worker.expired 5).isSome ∧
      ∀ acts, ∃ handled, handlePostponedActions collisionEnv 5 acts
        (runsLeft worker.postponedActions.actions) 0 worker = some handled ∧
          handled.iterations ≤ 4 := by
  have executes : (((start collisionEnv (text "w1") 0 0).bind fun first =>
      exec (MessageWorker.step collisionEnv) Unguarded first expiredEvents).any
        fun worker => worker.phase.clock = some 5 ∧ (worker.expired 5).isSome ∧
          runsLeft worker.postponedActions.actions = 4) = true := by decide +kernel
  obtain ⟨worker, executed, checked⟩ := (Option.any_eq_true _ _).mp executes
  obtain ⟨first, started, executed⟩ := Option.bind_eq_some_iff.mp executed
  obtain ⟨clock, isExpired, four⟩ := of_decide_eq_true checked
  have run := Run.of_exec executed
  have handling := Phase.clock_eq_some.mp clock
  refine ⟨first, worker, started, run, handling, isExpired, fun acts => ?_⟩
  obtain ⟨_, _, ends⟩ := handlePostponedActions_terminates started run handling
  obtain ⟨handled, isHandled, few, _⟩ := ends acts
  exact ⟨handled, isHandled, four ▸ few⟩

end MessageWorker

end Cdcm.Backend
