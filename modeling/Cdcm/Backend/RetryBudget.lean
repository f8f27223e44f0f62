import Cdcm.Backend.Retries

/-!
# The budget of a postponed action

An action that keeps being postponed is called as long as it has runs left, and once more;
the result of that call is sent, and the action leaves the queue.  The runs are the setting
as an 8-bit number, and an action is lost when another one waits under its id.
-/

namespace Cdcm.Backend

open Json Protocol Zmq Machine

/-- The action that `worker_loop` asks the queue to add. -/
def postponedAction (env : WorkerEnvironment) (worker : MessageWorker) (hdr : Header)
    (input : ActInput) (actionMessage : Value) (id : ByteString) : PostponedAction :=
  ⟨actionMessage, worker.replyTo, id, Fin.ofNat 256 env.actionRetriesOnPostpone,
    toTimeT (input.now + env.actionPostponeDur), hdr⟩

namespace MessageWorker

/-- In a request that is served, the first call of an action is postponed: the worker that
has come to this call, and the action that it asks the queue to add. -/
inductive Postpones (env : WorkerEnvironment) (worker : MessageWorker) (input : ServeInput) :
    MessageWorker → PostponedAction → Prop where
  | intro {request : Zmsg} {body : ByteString} {hdr : Header} {actions : List Value}
      {before after : List (Value × Nat)} {actionMessage : Value} {position : Nat}
      {reached : MessageWorker} {answers : List Answer} {id : ByteString}
      (serving : worker.phase = .serving request) (isBody : request.body = some body)
      (isRead : readRequest env.library (cStr body) = .ok (hdr, actions))
      (batch : actions.zipIdx = before ++ (actionMessage, position) :: after)
      (reaches : actOnAll env hdr input.acts before worker [] = (reached, answers, none))
      (isPostponed : postponedId env (input.acts position) actionMessage = .ok (some id)) :
      Postpones env worker input reached
        (postponedAction env reached hdr (input.acts position) actionMessage id)

/-- The postponed action that an event calls. -/
def called (worker : MessageWorker) : WorkerEvent → Option PostponedAction
  | .retry _ => worker.phase.clock.bind worker.expired
  | .poll _ | .serve _ => none

/-! ## The life of a postponed action -/

section Life

variable {env : WorkerEnvironment} {first : MessageWorker}
  (forever : Forever (MessageWorker.step env) first)

/-- When the action with the id is called, as long as it waits from some time on. -/
def callTimes (id : ByteString) (since : Nat) : Set Nat :=
  { time | since ≤ time ∧
    (∀ earlier, since ≤ earlier → earlier ≤ time →
      (forever.state earlier).postponedActions.Has id) ∧
    ∃ top, (forever.state time).called (forever.event time) = some top ∧ top.id = id }

/-- The calls at these times end with the action postponed. -/
def KeepsPostponing (times : Set Nat) : Prop :=
  ∀ time ∈ times, ∃ respStatus result now,
    forever.event time = .retry ⟨.returns .postponed respStatus result, now⟩

/-- Again and again, the loop reads a clock that has reached any given one. -/
def TimePasses : Prop :=
  ∀ clock time, ∃ later ≥ time, ∃ now ≥ clock, (forever.state later).phase = .handling now

/-- The result of the call at this time goes out to the client of the action, under its
header. -/
def SendsResult (pa : PostponedAction) (time : Nat) : Prop :=
  ∃ status respStatus result now sent,
    forever.event time = .retry ⟨.returns status respStatus result, now⟩ ∧
    (forever.state (time + 1)).journal = (forever.state time).journal ++ [sent] ∧
    sent.identity = (forever.state time).identity ∧
    sent.Carries env
      ⟨pa.replyTo, pa.header, [⟨some pa.actionMessage, ⟨pa.id, respStatus, result⟩⟩]⟩

/-- An action is called at so many times; the last call sends its result and the others
send nothing, and then it has left the queue. -/
structure Spends (pa : PostponedAction) (times : Set Nat) (calls : Nat) : Prop where
  count : times.encard = calls
  ends : ∃ last ∈ times, (∀ time ∈ times, time ≤ last) ∧ SendsResult forever pa last ∧
    (∀ time ∈ times, time ≠ last →
      (forever.state (time + 1)).journal = (forever.state time).journal) ∧
    ¬ (forever.state (last + 1)).postponedActions.Has pa.id

end Life

/-! ## Steps and calls -/

section Steps

variable {env : WorkerEnvironment} {worker next : MessageWorker}

theorem called_eq_some {event : WorkerEvent} {top : PostponedAction} :
    worker.called event = some top ↔ ∃ input now, event = .retry input ∧
      worker.phase = .handling now ∧ worker.expired now = some top := by
  cases event with
  | retry input => simp [called, Option.bind_eq_some_iff, Phase.clock_eq_some]
  | poll | serve => simp [called]

theorem returned_of_called {event : WorkerEvent} {top : PostponedAction}
    (readsBack : ReadsBack env worker.postponedActions)
    (isCalled : worker.called event = some top) (stepped : worker.step env event = some next) :
    top ∈ worker.postponedActions.actions ∧
      ∃ input, event = .retry input ∧ Returned env worker input top next := by
  obtain ⟨input, now, rfl, handling, isExpired⟩ := called_eq_some.mp isCalled
  have isTop := expired_mem isExpired
  rw [step_calls handling isExpired] at stepped
  exact ⟨isTop, input, rfl, retry_returned (readsBack top isTop) stepped⟩

/-- Acting on a request takes no action out of the queue. -/
theorem actOnAll_grows {hdr : Header} {acts : Nat → ActInput} {batch : List (Value × Nat)}
    {answers results : List Answer} {fault : Option (Value × Fault)} {pa : PostponedAction}
    (acted : actOnAll env hdr acts batch worker answers = (next, results, fault))
    (member : pa ∈ worker.postponedActions.actions) : pa ∈ next.postponedActions.actions := by
  refine actOnAll_invariant (fun next => pa ∈ next.postponedActions.actions)
    (fun {before _ _ _ _} isIn effect => ?_) member acted
  cases effect with
  | answered => exact isIn
  | postponed added =>
      change pa ∈ (before.postponedActions.add added).1.actions
      rw [PostponedActionsQueue.actions_add]
      split
      next => exact isIn
      next => exact Multiset.mem_cons_of_mem isIn

/-- The loop over the actions of a request goes on behind the first ones. -/
theorem actOnAll_append {hdr : Header} {acts : Nat → ActInput}
    {before after : List (Value × Nat)} {reached : MessageWorker} {answers results : List Answer}
    (reaches : actOnAll env hdr acts before worker answers = (reached, results, none)) :
    actOnAll env hdr acts (before ++ after) worker answers =
      actOnAll env hdr acts after reached results := by
  induction before generalizing worker answers with
  | nil =>
      simp only [actOnAll, Prod.mk.injEq, and_true] at reaches
      obtain ⟨rfl, rfl⟩ := reaches
      rfl
  | cons head rest ih =>
      rw [List.cons_append, actOnAll]
      rw [actOnAll] at reaches
      cases acted : worker.actOn env hdr (acts head.2) head.1 with
      | error fault =>
          rw [acted] at reaches
          simp at reaches
      | ok turned =>
          rw [acted] at reaches
          exact ih reaches

/-- A request that is executed leaves the queue as the loop over its actions did. -/
theorem execute_actOnAll {input : ServeInput} {mstr : ByteString} {hdr header : Header}
    {actions : List Value} {answers : List Answer}
    (isRead : readRequest env.library mstr = .ok (hdr, actions))
    (executed : worker.execute env input mstr = some (next, header, answers)) :
    ∃ results fault,
      actOnAll env hdr input.acts actions.zipIdx worker [] = (next, results, fault) := by
  cases execute_cases executed with
  | unread reads => cases isRead.symm.trans reads
  | acted reads acted =>
      cases isRead.symm.trans reads
      exact ⟨_, _, acted⟩
  | failed reads acted =>
      cases isRead.symm.trans reads
      exact ⟨_, _, acted⟩

/-- Serving a request takes no action out of the queue. -/
theorem serve_grows {input : ServeInput} {request : Zmsg} {pa : PostponedAction}
    (served : worker.serve env input request = some next)
    (member : pa ∈ worker.postponedActions.actions) : pa ∈ next.postponedActions.actions := by
  obtain ⟨body, executed, header, answers, _, isExecuted, queue⟩ := serve_executes served
  rw [queue]
  cases execute_cases isExecuted with
  | unread => exact member
  | acted _ acted => exact actOnAll_grows acted member
  | failed _ acted => exact actOnAll_grows acted member

/-- A call that ends with its action postponed asks the queue to add it. -/
theorem actOn_of_postponed (hdr : Header) {input : ActInput} {actionMessage : Value}
    {id : ByteString} (isPostponed : postponedId env input actionMessage = .ok (some id)) :
    worker.actOn env hdr input actionMessage = .ok ({ worker with postponedActions :=
      (worker.postponedActions.add
        (postponedAction env worker hdr input actionMessage id)).1 }, []) := by
  rw [postponedId] at isPostponed
  rw [actOn]
  cases reads : readId env actionMessage with
  | error fault =>
      rw [reads] at isPostponed
      contradiction
  | ok found =>
      rw [reads] at isPostponed
      cases found with
      | none => cases isPostponed
      | some name =>
          cases outcome : input.outcome with
          | throws =>
              rw [outcome] at isPostponed
              contradiction
          | returns status respStatus result =>
              rw [outcome] at isPostponed
              simp only [bind, Except.bind, pure, Except.pure, Except.ok.injEq, ite_eq_iff,
                Option.some.injEq, reduceCtorEq, and_false, or_false] at isPostponed
              obtain ⟨waits, rfl⟩ := isPostponed
              simp only [bind, Except.bind, pure, Except.pure, waits, if_true]
              rfl

/-- A postponed action that the queue takes is in it when its request has been served. -/
theorem Postpones.mem {input : ServeInput} {reached : MessageWorker} {pa : PostponedAction}
    (postpones : Postpones env worker input reached pa)
    (accepted : (reached.postponedActions.add pa).2 = true)
    (stepped : worker.step env (.serve input) = some next) :
    pa ∈ next.postponedActions.actions := by
  obtain ⟨serving, isBody, isRead, batch, reaches, isPostponed⟩ := postpones
  rename_i request body hdr actions before after actionMessage position answers id
  simp only [MessageWorker.step, serving] at stepped
  obtain ⟨served, executed, header, results, isServed, isExecuted, queue⟩ :=
    serve_executes stepped
  obtain rfl := Option.some.inj (isBody.symm.trans isServed)
  obtain ⟨results, fault, acted⟩ := execute_actOnAll isRead isExecuted
  rw [batch, actOnAll_append reaches, actOnAll] at acted
  rw [actOn_of_postponed hdr isPostponed] at acted
  have fresh : ¬ reached.postponedActions.Has
      (postponedAction env reached hdr (input.acts position) actionMessage id).id := by
    intro taken
    rw [PostponedActionsQueue.add_refused_iff.mpr taken] at accepted
    contradiction
  rw [queue]
  refine actOnAll_grows acted ?_
  dsimp only
  rw [actions_add_fresh fresh]
  exact Multiset.mem_cons_self _ _

/-- What is not called stays in the queue as it is. -/
theorem step_stays {event : WorkerEvent} {pa : PostponedAction}
    (readsBack : ReadsBack env worker.postponedActions)
    (stepped : worker.step env event = some next)
    (member : pa ∈ worker.postponedActions.actions)
    (notCalled : ∀ top, worker.called event = some top → top.id ≠ pa.id) :
    pa ∈ next.postponedActions.actions := by
  rcases step_cases stepped with ⟨input, now, rfl, handling, _⟩ | ⟨input, rfl, _, polled⟩ |
    ⟨input, request, rfl, _, served⟩
  · cases isExpired : worker.expired now with
    | none =>
        rw [step_ends handling isExpired] at stepped
        obtain rfl := Option.some.inj stepped
        exact member
    | some top =>
        have isCalled := called_eq_some.mpr ⟨input, now, rfl, handling, isExpired⟩
        obtain ⟨isTop, _, _, returned⟩ := returned_of_called readsBack isCalled stepped
        have other : pa ≠ top := fun same => notCalled top isCalled (same ▸ rfl)
        cases returned.shortened isTop with
        | removed isGone =>
            rw [isGone, Multiset.mem_cons] at member
            exact member.resolve_left other
        | decreased shorter rest isBefore isAfter =>
            rw [isBefore, Multiset.mem_cons] at member
            rw [isAfter]
            exact Multiset.mem_cons_of_mem (member.resolve_left other)
  · exact (poll_spec polled).postponedActions ▸ member
  · exact serve_grows served member

end Steps

/-! ## The loop in a run without an end -/

section Life

variable {env : WorkerEnvironment} {first : MessageWorker}
  {forever : Forever (MessageWorker.step env) first}

/-- Every loop over the postponed actions comes to its last turn. -/
theorem loop_ends (readsBack : ∀ time, ReadsBack env (forever.state time).postponedActions)
    {time : Nat} {now : Int} (handling : (forever.state time).phase = .handling now) :
    ∃ later ≥ time, (forever.state later).phase = .handling now ∧
      (forever.state later).expired now = none := by
  induction runs : runsLeft (forever.state time).postponedActions.actions
      using Nat.strong_induction_on generalizing time with
  | h runs' ih =>
      cases isExpired : (forever.state time).expired now with
      | none => exact ⟨time, le_rfl, handling, isExpired⟩
      | some top =>
          have stepped := forever.steps time
          rcases step_cases stepped with ⟨input, _, event, _, _⟩ |
            ⟨_, _, polling, _⟩ | ⟨_, _, _, serving, _⟩
          · have isCalled := called_eq_some.mpr ⟨input, now, event, handling, isExpired⟩
            obtain ⟨isTop, _, _, returned⟩ :=
              returned_of_called (readsBack time) isCalled stepped
            obtain ⟨later, after, phase, ends⟩ := ih _
              (runs ▸ (returned.shortened isTop).runsLeft_lt) (returned.phase.trans handling) rfl
            exact ⟨later, (Nat.le_succ time).trans after, phase, ends⟩
          · rw [handling] at polling
            contradiction
          · rw [handling] at serving
            contradiction

/-- A waiting action is called at some time, and waits until then as it is. -/
theorem exists_called (readsBack : ∀ time, ReadsBack env (forever.state time).postponedActions)
    (passes : TimePasses forever) {since : Nat} {pa : PostponedAction}
    (member : pa ∈ (forever.state since).postponedActions.actions) :
    ∃ time ≥ since, (forever.state time).called (forever.event time) = some pa ∧
      ∀ earlier, since ≤ earlier → earlier ≤ time →
        pa ∈ (forever.state earlier).postponedActions.actions ∧
          (earlier < time → ∀ top, (forever.state earlier).called (forever.event earlier) =
            some top → top.id ≠ pa.id) := by
  let isTime (time : Nat) : Prop := since ≤ time ∧
    ∃ top, (forever.state time).called (forever.event time) = some top ∧ top.id = pa.id
  have stays (time : Nat) (after : since ≤ time)
      (never : ∀ earlier < time, ¬ isTime earlier) :
      pa ∈ (forever.state time).postponedActions.actions := by
    induction time, after using Nat.le_induction with
    | base => exact member
    | succ time after ih =>
        refine step_stays (readsBack time) (forever.steps time)
          (ih fun earlier before => never earlier (before.trans (Nat.lt_succ_self time))) ?_
        exact fun top isCalled same =>
          never time (Nat.lt_succ_self time) ⟨after, top, isCalled, same⟩
  have sometime : ∃ time, isTime time := by
    by_contra none
    rw [not_exists] at none
    obtain ⟨later, after, now, reached, handling⟩ := passes pa.expirationTime since
    obtain ⟨last, behind, _, ends⟩ := loop_ends readsBack handling
    have waits := stays last (after.trans behind) fun earlier _ => none earlier
    obtain ⟨top, isTop⟩ := Option.isSome_iff_exists.mp (PostponedActionsQueue.top_isSome waits)
    have isExpired := expired_eq_some.mpr
      ⟨isTop, (PostponedActionsQueue.top_le isTop waits).trans reached⟩
    rw [ends] at isExpired
    contradiction
  classical
  obtain ⟨after, top, isCalled, same⟩ := Nat.find_spec sometime
  have waits := stays _ after fun earlier before => Nat.find_min sometime before
  have isTop := (returned_of_called (readsBack _) isCalled (forever.steps _)).1
  obtain rfl := PostponedActionsQueue.eq_of_id_eq isTop waits same
  refine ⟨_, after, isCalled, fun earlier behind before => ⟨?_, fun less top isCalled same => ?_⟩⟩
  · exact stays earlier behind fun sooner less =>
      Nat.find_min sometime (less.trans_le before)
  · exact Nat.find_min sometime less ⟨behind, top, isCalled, same⟩

/-- The times of the calls are that of the first one and those behind it. -/
theorem callTimes_eq {since time : Nat} {pa : PostponedAction} (after : since ≤ time)
    (isCalled : (forever.state time).called (forever.event time) = some pa)
    (waits : ∀ earlier, since ≤ earlier → earlier ≤ time →
      pa ∈ (forever.state earlier).postponedActions.actions ∧
        (earlier < time → ∀ top, (forever.state earlier).called (forever.event earlier) =
          some top → top.id ≠ pa.id)) :
    callTimes forever pa.id since = insert time (callTimes forever pa.id (time + 1)) := by
  have has (earlier : Nat) (behind : since ≤ earlier) (before : earlier ≤ time) :
      (forever.state earlier).postponedActions.Has pa.id :=
    PostponedActionsQueue.has_iff.mpr ⟨pa, (waits earlier behind before).1, rfl⟩
  ext other
  constructor
  · intro ⟨behind, ever, top, isOther, same⟩
    rcases lt_trichotomy other time with less | rfl | more
    · exact absurd same ((waits other behind less.le).2 less top isOther)
    · exact .inl rfl
    · exact .inr ⟨more, fun earlier later => ever earlier (by omega), top, isOther, same⟩
  · rintro (rfl | ⟨more, ever, top, isOther, same⟩)
    · exact ⟨after, has, pa, isCalled, rfl⟩
    · refine ⟨by omega, fun earlier behind before => ?_, top, isOther, same⟩
      by_cases early : earlier ≤ time
      · exact has earlier behind early
      · exact ever earlier (by omega) before

/-- The first call of a waiting action that keeps being postponed, and what it leaves. -/
theorem exists_postponing_call
    (readsBack : ∀ time, ReadsBack env (forever.state time).postponedActions)
    (passes : TimePasses forever) {since : Nat} {pa : PostponedAction}
    (member : pa ∈ (forever.state since).postponedActions.actions)
    (postponing : KeepsPostponing forever (callTimes forever pa.id since)) :
    ∃ time respStatus result now,
      callTimes forever pa.id since = insert time (callTimes forever pa.id (time + 1)) ∧
      forever.event time = .retry ⟨.returns .postponed respStatus result, now⟩ ∧
      pa ∈ (forever.state time).postponedActions.actions ∧
      Returned env (forever.state time) ⟨.returns .postponed respStatus result, now⟩ pa
        (forever.state (time + 1)) := by
  obtain ⟨time, after, isCalled, waits⟩ := exists_called readsBack passes member
  have split := callTimes_eq after isCalled waits
  obtain ⟨respStatus, result, now, event⟩ := postponing time (split ▸ Set.mem_insert _ _)
  obtain ⟨isTop, input, same, returned⟩ :=
    returned_of_called (readsBack time) isCalled (forever.steps time)
  obtain rfl := WorkerEvent.retry.inj (event.symm.trans same)
  exact ⟨time, respStatus, result, now, split, event, (waits time after le_rfl).1, returned⟩

/-- A waiting action is called once more than it has runs left, then its last result is
sent and it leaves. -/
theorem spends_runs (readsBack : ∀ time, ReadsBack env (forever.state time).postponedActions)
    (passes : TimePasses forever) {since runs : Nat} {pa : PostponedAction}
    (member : pa ∈ (forever.state since).postponedActions.actions)
    (isLeft : pa.remainingRuns.val = runs)
    (postponing : KeepsPostponing forever (callTimes forever pa.id since)) :
    Spends forever pa (callTimes forever pa.id since) (runs + 1) := by
  induction runs generalizing since pa with
  | zero =>
      obtain ⟨time, respStatus, result, now, split, event, isTop, returned⟩ :=
        exists_postponing_call readsBack passes member postponing
      generalize isNext : forever.state (time + 1) = next at returned
      cases returned with
      | again _ left =>
          have none : pa.remainingRuns = 0 := Fin.ext isLeft
          rw [none] at left
          contradiction
      | answered outcome _ identity _ carries =>
          have gone : ¬ (forever.state (time + 1)).postponedActions.Has pa.id := by
            rw [isNext]
            exact PostponedActionsQueue.not_has_removeById pa.id
          have noMore : callTimes forever pa.id (time + 1) = ∅ := by
            ext other
            refine iff_of_false (fun isTime => ?_) (Set.notMem_empty other)
            exact gone (isTime.2.1 (time + 1) le_rfl isTime.1)
          rw [split, noMore]
          obtain ⟨rfl, rfl, rfl⟩ := ActOutcome.returns.inj outcome
          refine ⟨by simp, time, Set.mem_insert _ _, ?_, ?_, ?_, gone⟩
          · rintro other (rfl | isOther)
            · exact le_rfl
            · contradiction
          · exact ⟨_, _, _, now, _, event, by rw [isNext], identity, carries⟩
          · rintro other (rfl | isOther) distinct
            · contradiction
            · contradiction
  | succ runs ih =>
      obtain ⟨time, respStatus, result, now, split, event, isTop, returned⟩ :=
        exists_postponing_call readsBack passes member postponing
      generalize isNext : forever.state (time + 1) = next at returned
      cases returned with
      | answered outcome spent _ _ _ =>
          obtain ⟨rfl, rfl, rfl⟩ := ActOutcome.returns.inj outcome
          have none : pa.remainingRuns.val = 0 := congrArg Fin.val (spent rfl)
          omega
      | again _ left =>
          obtain ⟨rest, _, isAfter⟩ :=
            PostponedActionsQueue.actions_decrement (toTimeT now) isTop
          have fewer := again_remainingRuns (toTimeT now) left
          have spends := @ih (time + 1) (PostponedActionsQueue.again (toTimeT now) pa)
            (by rw [isNext, isAfter]; exact Multiset.mem_cons_self _ _) (by omega)
            fun other isOther => postponing other (split ▸ Set.mem_insert_of_mem _ isOther)
          obtain ⟨last, isLast, bound, sends, quiet, gone⟩ := spends.ends
          rw [split]
          refine ⟨?_, last, Set.mem_insert_of_mem _ isLast, ?_, sends, ?_, gone⟩
          · have new : time ∉ callTimes forever pa.id (time + 1) :=
              fun isTime => Nat.not_succ_le_self time isTime.1
            rw [Set.encard_insert_of_notMem new]
            have count : (callTimes forever pa.id (time + 1)).encard = (runs + 1 : Nat) :=
              spends.count
            rw [count]
            rfl
          · rintro other (rfl | isOther)
            · exact (Nat.le_succ other).trans isLast.1
            · exact bound other isOther
          · rintro other (rfl | isOther) distinct
            · rw [isNext]
            · exact quiet other isOther distinct

/-! ## The budget -/

/-- When a postponed action is called: never, unless the queue has taken it. -/
def ownCalls (forever : Forever (MessageWorker.step env) first) (reached : MessageWorker)
    (pa : PostponedAction) : Set Nat :=
  { time | (reached.postponedActions.add pa).2 = true ∧ time ∈ callTimes forever pa.id 0 }

theorem ownCalls_of_accepted {reached : MessageWorker} {pa : PostponedAction}
    (accepted : (reached.postponedActions.add pa).2 = true) :
    ownCalls forever reached pa = callTimes forever pa.id 0 := by
  ext time
  exact and_iff_right accepted

/-- Behind its first call, a postponed action that the queue takes is called once more than
the runs that the setting leaves as an 8-bit number. -/
theorem spends_setting {identity : ByteString} {connect handle : Int}
    {started : MessageWorker} {worker reached : MessageWorker} {events : List WorkerEvent}
    {input : ServeInput} {pa : PostponedAction}
    (starts : start env identity connect handle = some started)
    (run : Run (MessageWorker.step env) Unguarded started events worker)
    (postpones : Postpones env worker input reached pa)
    (stepped : worker.step env (.serve input) = some first)
    (passes : TimePasses forever)
    (postponing : KeepsPostponing forever (ownCalls forever reached pa))
    (accepted : (reached.postponedActions.add pa).2 = true) :
    Spends forever pa (ownCalls forever reached pa)
      (env.actionRetriesOnPostpone % 256 + 1) := by
  have readsFirst := step_readsBack (readsBack_reached starts run) stepped
  have readsBack (time : Nat) : ReadsBack env (forever.state time).postponedActions :=
    forever.invariant (fun state => ReadsBack env state.postponedActions) readsFirst
      (fun _ _ _ readsBack stepped => step_readsBack readsBack stepped) time
  have member := postpones.mem accepted stepped
  have isLeft : pa.remainingRuns.val = env.actionRetriesOnPostpone % 256 := by
    cases postpones
    rfl
  rw [ownCalls_of_accepted accepted] at postponing ⊢
  rw [← forever.starts] at member
  exact spends_runs readsBack passes member isLeft postponing

/-- A postponed action that keeps being postponed is called so many times more as the
setting says, and once more, before its last result is sent and it leaves the queue: exactly
when the setting is an 8-bit number and no other action waits under the id of this one. -/
theorem budget_spent_iff {identity : ByteString} {connect handle : Int}
    {started worker reached next : MessageWorker} {events : List WorkerEvent}
    {input : ServeInput} {pa : PostponedAction}
    (starts : start env identity connect handle = some started)
    (run : Run (MessageWorker.step env) Unguarded started events worker)
    (postpones : Postpones env worker input reached pa)
    (stepped : worker.step env (.serve input) = some next)
    (forever : Forever (MessageWorker.step env) next) (passes : TimePasses forever)
    (postponing : KeepsPostponing forever (ownCalls forever reached pa)) :
    Spends forever pa (ownCalls forever reached pa) (env.actionRetriesOnPostpone + 1) ↔
      env.actionRetriesOnPostpone < 256 ∧ ¬ reached.postponedActions.Has pa.id := by
  have spends := spends_setting starts run postpones stepped passes postponing
  rw [← PostponedActionsQueue.add_refused_iff, Bool.not_eq_false]
  constructor
  · intro budget
    have accepted : (reached.postponedActions.add pa).2 = true := by
      obtain ⟨last, isCall, _⟩ := budget.ends
      exact isCall.1
    have counts := budget.count.symm.trans (spends accepted).count
    have same := Nat.cast_injective counts
    exact ⟨by omega, accepted⟩
  · intro ⟨small, accepted⟩
    have whole := spends accepted
    rwa [Nat.mod_eq_of_lt small] at whole

end Life

/-! ## A worker whose only action is always busy -/

section Sample

variable {env : WorkerEnvironment} {worker : MessageWorker}

/-- A reply always goes out. -/
theorem sendToBroker_reply_isSome (body client : ByteString) (answered : Option Answered) :
    (worker.sendToBroker mdpwReply [] (some (replyMessage body client)) answered).isSome := by
  have sends : (brokerMessage mdpwReply [] (some (replyMessage body client))).send.isSome := by
    refine Zmsg.send_isSome fun part member => ?_
    simp only [brokerMessage, List.length_nil, ne_eq, not_true_eq_false, if_false,
      Option.getD_some, replyMessage, Zmsg.empty, Zmsg.emplaceBack, Zmsg.partData_pushFront,
      Zmsg.partData_wrap, List.nil_append, List.mem_cons, List.not_mem_nil, or_false] at member
    rcases member with rfl | rfl | rfl | rfl | rfl | rfl <;> exact zero_not_mem_cStr _
  obtain ⟨frames, sent⟩ := Option.isSome_iff_exists.mp sends
  simp [sendToBroker, sent]

/-- A call of a postponed action that sets a result gets through. -/
theorem retry_isSome {input : ActInput} {top : PostponedAction} {status : ActionStatus}
    {respStatus : RespStatus} {value : Value}
    (reads : readId env top.actionMessage = .ok (some top.id))
    (outcome : input.outcome = .returns status respStatus (some value)) :
    (worker.retry env input top).isSome := by
  rw [retry, reads]
  simp only [Except.toOption, Option.bind_eq_bind, Option.bind_some, outcome]
  split
  next => rfl
  next =>
    have prints := @ResMsg.print_isSome env.library none top.header
      [⟨top.id, respStatus, some value⟩] (by simp)
    obtain ⟨body, printed⟩ := Option.isSome_iff_exists.mp prints
    obtain ⟨_, sent⟩ := Option.isSome_iff_exists.mp
      (@sendToBroker_reply_isSome worker body top.replyTo (some ⟨top.replyTo, top.header,
        [⟨some top.actionMessage, ⟨top.id, respStatus, some value⟩⟩]⟩))
    simp [printed, sent]

/-- A poll without a message gets through, and the next loop has its clock. -/
theorem expire_handles (input : PollInput) :
    ∃ next, worker.expire env input = some next ∧
      next.phase = .handling (toTimeT input.handle) := by
  have beats (worker : MessageWorker) : ∃ next, worker.beat env input = some next ∧
      next.phase = .handling (toTimeT input.handle) := by
    obtain ⟨next, beaten⟩ := Option.isSome_iff_exists.mp (@beat_isSome env worker input)
    obtain ⟨_, _, _, rfl⟩ := beat_spec beaten
    exact ⟨_, beaten, rfl⟩
  rw [expire]
  split
  next =>
    obtain ⟨connected, isConnected⟩ := Option.isSome_iff_exists.mp
      (@connectToBroker_isSome env
        { worker with liveness := (worker.liveness + (2 ^ 64 - 1)) % 2 ^ 64 }
        input.identity input.connect)
    rw [isConnected]
    exact beats connected
  next => exact beats _

/-- A call of an action that is still busy. -/
def busy : ActInput :=
  ⟨.returns .postponed ⟨some 1, text "pipe busy", some 231⟩ (some (.string (text "busy"))), 0⟩

/-- A worker that hears nothing, calls what has expired, and polls at a later time. -/
def waitsOn (time : Nat) (worker : MessageWorker) : WorkerEvent :=
  match worker.phase with
  | .handling _ => .retry busy
  | .polling | .serving _ =>
      .poll ⟨none, text "w2", time * 1000, time * 1000, time * 1000⟩

/-- What holds of a worker that hears nothing. -/
def Undisturbed (env : WorkerEnvironment) (worker : MessageWorker) : Prop :=
  ReadsBack env worker.postponedActions ∧ ∀ request, worker.phase ≠ .serving request

theorem Undisturbed.goes_on (time : Nat) (undisturbed : Undisturbed env worker) :
    ∃ next, worker.step env (waitsOn time worker) = some next ∧ Undisturbed env next ∧
      (worker.phase = .polling → next.phase = .handling time) := by
  obtain ⟨readsBack, notServing⟩ := undisturbed
  cases phase : worker.phase with
  | serving request => exact absurd phase (notServing request)
  | polling =>
      have polls : waitsOn time worker =
          .poll ⟨none, text "w2", time * 1000, time * 1000, time * 1000⟩ := by
        rw [waitsOn, phase]
      obtain ⟨next, expired, handles⟩ := @expire_handles env worker
        ⟨none, text "w2", time * 1000, time * 1000, time * 1000⟩
      have stepped : worker.step env (waitsOn time worker) = some next := by
        simp only [polls, MessageWorker.step, phase, poll, expired]
      have clock : toTimeT ((time : Int) * 1000) = time := by
        rw [toTimeT]
        omega
      rw [clock] at handles
      refine ⟨next, stepped, ⟨step_readsBack readsBack stepped, fun request => ?_⟩,
        fun _ => handles⟩
      simp [handles]
  | handling now =>
      have retries : waitsOn time worker = .retry busy := by rw [waitsOn, phase]
      rw [retries]
      cases isExpired : worker.expired now with
      | none =>
          refine ⟨_, step_ends phase isExpired busy, ⟨readsBack, fun request => ?_⟩,
            fun isPolling => ?_⟩
          · simp
          · contradiction
      | some top =>
          have isTop := expired_mem isExpired
          have reads := readsBack top isTop
          obtain ⟨next, retried⟩ := Option.isSome_iff_exists.mp
            (@retry_isSome env worker busy top _ _ _ reads rfl)
          have returned := retry_returned reads retried
          refine ⟨next, (step_calls phase isExpired busy).trans retried,
            ⟨returned.readsBack isTop readsBack, fun request => ?_⟩, fun isPolling => ?_⟩
          · simp [returned.phase, phase]
          · contradiction

/-- A worker can go on without being disturbed, while the time passes and what it calls is
busy. -/
theorem Undisturbed.exists_forever (undisturbed : Undisturbed env worker) :
    ∃ forever : Forever (MessageWorker.step env) worker, TimePasses forever ∧
      ∀ id since, KeepsPostponing forever (callTimes forever id since) := by
  have progress (time : Nat) (state : MessageWorker) (undisturbed : Undisturbed env state) :=
    undisturbed.goes_on time
  obtain ⟨forever, goesOn⟩ := Forever.exists_of_progress (Undisturbed env) undisturbed waitsOn
    fun time state undisturbed =>
      have ⟨next, stepped, stays, _⟩ := progress time state undisturbed
      ⟨next, stepped, stays⟩
  have handles {time : Nat} (polling : (forever.state time).phase = .polling) :
      (forever.state (time + 1)).phase = .handling time := by
    obtain ⟨next, stepped, _, handles⟩ := progress time _ (goesOn time).2
    rw [← (goesOn time).1, forever.steps time] at stepped
    exact Option.some.inj stepped ▸ handles polling
  have polls (time : Nat) : ∃ later ≥ time, (forever.state later).phase = .polling := by
    cases phase : (forever.state time).phase with
    | serving request => exact absurd phase ((goesOn time).2.2 request)
    | polling => exact ⟨time, le_rfl, phase⟩
    | handling now =>
        obtain ⟨last, after, handling, ends⟩ :=
          loop_ends (fun time => (goesOn time).2.1) phase
        have event := (goesOn last).1
        rw [waitsOn, handling] at event
        have stepped := forever.steps last
        rw [event, step_ends handling ends] at stepped
        exact ⟨last + 1, after.trans (Nat.le_succ last), Option.some.inj stepped ▸ rfl⟩
  refine ⟨forever, fun clock time => ?_, fun id since time isCall => ?_⟩
  · obtain ⟨later, after, polling⟩ := polls (max time clock.toNat)
    refine ⟨later + 1, by omega, later, ?_, handles polling⟩
    have reached : clock.toNat ≤ later := (le_max_right _ _).trans after
    omega
  · obtain ⟨top, isCalled, _⟩ := isCall.2.2
    obtain ⟨input, now, _, handling, _⟩ := called_eq_some.mp isCalled
    have retries : waitsOn time (forever.state time) = .retry busy := by rw [waitsOn, handling]
    exact ⟨_, _, _, (goesOn time).1.trans retries⟩

/-- A worker process with the plugin `ping` and the given setting. -/
def retriesEnv (retries : Nat) : WorkerEnvironment :=
  { collisionEnv with actionRetriesOnPostpone := retries }

/-- A request for an action, which is busy. -/
def busyEvents : List WorkerEvent :=
  [.retry busy, requestFrom "c" (sampleBody [pingAction "1"]) 0]

def busyInput : ServeInput := ⟨fun _ => busy, 0⟩

/-- The worker serves the request, and nothing waits under the id of its action. -/
def servesBusy (env : WorkerEnvironment) (worker : MessageWorker) : Bool :=
  (match worker.phase with
    | .serving request => request.body = some ((sampleBody [pingAction "1"]).print none 0)
    | .handling _ | .polling => false) &&
  (¬ worker.postponedActions.Has (text "1")) &&
  (worker.step env (.serve busyInput)).any fun next => next.phase.clock.isSome

/-- The action of the request is postponed, and then stays busy for ever. -/
theorem exists_busy (retries : Nat)
    (serves : (((start (retriesEnv retries) (text "w1") 0 0).bind fun first =>
      exec (MessageWorker.step (retriesEnv retries)) Unguarded first busyEvents).any
        (servesBusy (retriesEnv retries))) = true) :
    ∃ (started worker next : MessageWorker) (pa : PostponedAction)
      (forever : Forever (MessageWorker.step (retriesEnv retries)) next),
      start (retriesEnv retries) (text "w1") 0 0 = some started ∧
      Run (MessageWorker.step (retriesEnv retries)) Unguarded started busyEvents worker ∧
      Postpones (retriesEnv retries) worker busyInput worker pa ∧
      worker.step (retriesEnv retries) (.serve busyInput) = some next ∧
      TimePasses forever ∧ KeepsPostponing forever (ownCalls forever worker pa) ∧
      ¬ worker.postponedActions.Has pa.id := by
  obtain ⟨worker, executed, checked⟩ := (Option.any_eq_true _ _).mp serves
  obtain ⟨started, starts, executed⟩ := Option.bind_eq_some_iff.mp executed
  have run := Run.of_exec executed
  rw [servesBusy, Bool.and_eq_true, Bool.and_eq_true] at checked
  obtain ⟨⟨isServing, fresh⟩, steps⟩ := checked
  obtain ⟨next, stepped, clock⟩ := (Option.any_eq_true _ _).mp steps
  obtain ⟨now, isClock⟩ := Option.isSome_iff_exists.mp clock
  have handling := Phase.clock_eq_some.mp isClock
  have undisturbed : Undisturbed (retriesEnv retries) next :=
    ⟨step_readsBack (readsBack_reached starts run) stepped, handling ▸ nofun⟩
  obtain ⟨forever, passes, postponing⟩ := undisturbed.exists_forever
  cases phase : worker.phase with
  | handling | polling =>
      rw [phase] at isServing
      contradiction
  | serving request =>
      rw [phase] at isServing
      have isBody := of_decide_eq_true isServing
      have isRead : readRequest (retriesEnv retries).library
          (cStr ((sampleBody [pingAction "1"]).print none 0)) =
            .ok (⟨text "N/A"⟩, [pingAction "1"]) := rfl
      have isPostponed : postponedId (retriesEnv retries) (busyInput.acts 0) (pingAction "1") =
          .ok (some (text "1")) := rfl
      exact ⟨started, worker, next, _, forever, starts, run,
        .intro phase isBody isRead (List.nil_append _).symm rfl isPostponed, stepped, passes,
        fun time isCall => postponing _ _ time isCall.2, of_decide_eq_true fresh⟩

end Sample

/-- Three retries are allowed, and the action is called four times more. -/
theorem three_retries_spent :
    ∃ (started worker next : MessageWorker) (pa : PostponedAction)
      (forever : Forever (MessageWorker.step (retriesEnv 3)) next),
      start (retriesEnv 3) (text "w1") 0 0 = some started ∧
      Run (MessageWorker.step (retriesEnv 3)) Unguarded started busyEvents worker ∧
      Postpones (retriesEnv 3) worker busyInput worker pa ∧
      worker.step (retriesEnv 3) (.serve busyInput) = some next ∧
      TimePasses forever ∧ KeepsPostponing forever (ownCalls forever worker pa) ∧
      Spends forever pa (ownCalls forever worker pa) 4 := by
  obtain ⟨started, worker, next, pa, forever, starts, run, postpones, stepped, passes,
    postponing, fresh⟩ := exists_busy 3 (by decide +kernel)
  exact ⟨started, worker, next, pa, forever, starts, run, postpones, stepped, passes, postponing,
    (budget_spent_iff starts run postpones stepped forever passes postponing).mpr
      ⟨by decide, fresh⟩⟩

/-- With 256 retries, the action is called once more, and not 257 times. -/
theorem many_retries_not_spent :
    ∃ (started worker next : MessageWorker) (pa : PostponedAction)
      (forever : Forever (MessageWorker.step (retriesEnv 256)) next),
      start (retriesEnv 256) (text "w1") 0 0 = some started ∧
      Run (MessageWorker.step (retriesEnv 256)) Unguarded started busyEvents worker ∧
      Postpones (retriesEnv 256) worker busyInput worker pa ∧
      worker.step (retriesEnv 256) (.serve busyInput) = some next ∧
      TimePasses forever ∧ KeepsPostponing forever (ownCalls forever worker pa) ∧
      ¬ worker.postponedActions.Has pa.id ∧
      (ownCalls forever worker pa).encard = 1 ∧
      ¬ Spends forever pa (ownCalls forever worker pa) 257 := by
  obtain ⟨started, worker, next, pa, forever, starts, run, postpones, stepped, passes,
    postponing, fresh⟩ := exists_busy 256 (by decide +kernel)
  have accepted : (worker.postponedActions.add pa).2 = true := by
    rw [← Bool.not_eq_false, PostponedActionsQueue.add_refused_iff]
    exact fresh
  have spends := spends_setting starts run postpones stepped passes postponing accepted
  refine ⟨started, worker, next, pa, forever, starts, run, postpones, stepped, passes,
    postponing, fresh, spends.count, fun budget => ?_⟩
  have same := Nat.cast_injective (budget.count.symm.trans spends.count)
  contradiction

end MessageWorker

end Cdcm.Backend
