import Cdcm.Frontend.ClientProcess

/-!
# The results of the broker's own actions

The results in a reply to a client are those of the known actions, in their order, or the
one for a malformed message.  Every local action sets the status of its result; two of
them return without the id of their message where they fail.
-/

namespace Cdcm.Frontend

open Json Protocol SessionsCache Zmq

/-- The session of a message, and the surroundings of one of its actions, let the action
get to the line that copies the id. -/
def ActionMsg.FillsId (sess : Option Session) (input : ActInput) : ActionMsg → Prop
  | .startSession _ remote _ username _ _ =>
      remote ≠ [] ∧ username ≠ [] ∧ input.allocation = .succeeds
  | .closeSession _ => ∃ found, sess = some found ∧ found.uuid ≠ 0
  | .getCdcmInfo _ _ => True

/-- `id` of a message. -/
def ActionMsg.id : ActionMsg → ByteString
  | .startSession id .. | .closeSession id | .getCdcmInfo id _ => id

section Act

variable {env : Environment} {sessions next : SharedMemSessionsCache} {sess : Option Session}
  {input : ActInput} {message : ActionMsg} {res filled : ResultMsg}

theorem setResponseForSuccess_spec {result : Value}
    (done : res.setResponseForSuccess result = some filled) :
    filled.id = res.id ∧ Assigned filled.respStatus := by
  obtain rfl := Option.some.inj done
  exact ⟨rfl, .ok, 101, rfl, rfl⟩

theorem setResponseForError_assigned {error : CdcmError}
    (done : res.setResponseForError error = some filled) :
    filled.id = res.id ∧ Assigned filled.respStatus := by
  refine ⟨(setResponseForError_spec done).1, ?_⟩
  simp only [ResultMsg.setResponseForError, RespStatus.setForCdcmError, Option.bind_eq_bind,
    Option.bind_eq_some_iff, Option.pure_def, Option.some.injEq, Prod.exists] at done
  obtain ⟨_, ⟨group, code, _, -, description, described, rfl⟩, _, _, _, -, rfl⟩ := done
  exact ⟨group, code, rfl, described⟩

theorem add_succeeds_iff (cache : SharedMemSessionsCache) (uuidText : UuidText) (now : Int)
    (allocation : Allocation) (session : Session) :
    (cache.add uuidText now allocation session).2 = true ↔ allocation = .succeeds := by
  cases allocation <;> simp [SharedMemSessionsCache.add]

/-- A result has a status, and the id of its message if the action gets to it. -/
theorem act_spec (acted : message.act env sessions sess input res = some (next, filled)) :
    Assigned filled.respStatus ∧ (message.FillsId sess input → filled.id = message.id) ∧
      (¬ message.FillsId sess input → filled.id = res.id) := by
  have failed : ∀ error, ((do return (sessions, ← res.setResponseForError error)) :
      Option (SharedMemSessionsCache × ResultMsg)) = some (next, filled) →
      filled.id = res.id ∧ Assigned filled.respStatus := by
    intro error fills
    simp only [Option.bind_eq_bind, Option.bind_eq_some_iff, Option.pure_def, Option.some.injEq,
      Prod.mk.injEq] at fills
    obtain ⟨_, set, -, rfl⟩ := fills
    exact setResponseForError_assigned set
  cases message with
  | startSession id remote domain username password workstation =>
      simp only [ActionMsg.act, actStartSession] at acted
      split at acted
      next missing =>
        have set := failed _ acted
        refine ⟨set.2, fun fills => ?_, fun _ => set.1⟩
        cases missing with
        | inl noRemote => exact absurd noRemote fills.1
        | inr noUsername => exact absurd noUsername fills.2.1
      next given =>
        split at acted
        next refused =>
          simp only [Option.bind_eq_bind, Option.bind_eq_some_iff, Option.pure_def,
            Option.some.injEq, Prod.mk.injEq] at acted
          obtain ⟨_, set, -, rfl⟩ := acted
          have spec := setResponseForError_assigned set
          refine ⟨spec.2, fun fills => ?_, fun _ => spec.1⟩
          rw [(add_succeeds_iff _ _ _ _ _).mpr fills.2.2] at refused
          contradiction
        next added =>
          simp only [Option.bind_eq_bind, Option.bind_eq_some_iff, Option.pure_def,
            Option.some.injEq, Prod.mk.injEq] at acted
          obtain ⟨_, set, -, rfl⟩ := acted
          have spec := setResponseForSuccess_spec set
          refine ⟨spec.2, fun _ => spec.1, fun notFills => (notFills ?_).elim⟩
          refine ⟨fun empty => given (.inl empty), fun empty => given (.inr empty), ?_⟩
          apply (add_succeeds_iff _ _ _ _ _).mp
          simpa using added
  | closeSession id =>
      cases sess with
      | none =>
          have set := failed _ acted
          refine ⟨set.2, ?_, fun _ => set.1⟩
          rintro ⟨_, isSession, _⟩
          cases isSession
      | some found =>
          simp only [ActionMsg.act, actCloseSession] at acted
          split at acted
          next isNil =>
            have set := failed _ acted
            refine ⟨set.2, ?_, fun _ => set.1⟩
            rintro ⟨_, isSession, notNil⟩
            rw [← Option.some.inj isSession] at notNil
            exact absurd isNil notNil
          next notNil =>
            simp only [Option.bind_eq_bind, Option.bind_eq_some_iff, Option.pure_def,
              Option.some.injEq, Prod.mk.injEq] at acted
            obtain ⟨_, set, -, rfl⟩ := acted
            have spec := setResponseForSuccess_spec set
            exact ⟨spec.2, fun _ => spec.1, fun notFills => (notFills ⟨found, rfl, notNil⟩).elim⟩
  | getCdcmInfo id what =>
      simp only [ActionMsg.act, actGetCdcmInfo, Option.bind_eq_bind, Option.bind_eq_some_iff,
        Option.pure_def, Option.some.injEq, Prod.mk.injEq] at acted
      obtain ⟨_, set, -, rfl⟩ := acted
      split at set
      next =>
        have spec := setResponseForSuccess_spec set
        exact ⟨spec.2, fun _ => spec.1, fun notFills => (notFills trivial).elim⟩
      next =>
        have spec := setResponseForError_assigned set
        exact ⟨spec.2, fun _ => spec.1, fun notFills => (notFills trivial).elim⟩

/-- The results without the id of their message. -/
theorem act_id_iff (acted : message.act env sessions sess input .new = some (next, filled)) :
    filled.id = message.id ↔ message.FillsId sess input ∨ message.id = [] := by
  have spec := act_spec acted
  constructor
  · intro same
    by_contra neither
    rw [not_or] at neither
    rw [spec.2.2 neither.1] at same
    exact neither.2 same.symm
  · intro either
    by_cases fills : message.FillsId sess input
    · exact spec.2.1 fills
    · rw [spec.2.2 fills]
      exact (either.resolve_left fills).symm

end Act

/-! ## The actions of a message -/

/-- The elements of `msgs` that are read as local actions. -/
def localActions : List Value → List Value
  | [] => []
  | actMsg :: rest =>
      match readAction actMsg with
      | .ok (.inl _) => actMsg :: localActions rest
      | .ok (.inr _) => localActions rest
      | .error _ => []

/-- The id of a message is the string under `id` in the body of its action. -/
theorem getMessage_spec {action : LocalAction} {actMsg : Value} {message : ActionMsg}
    (reads : action.getMessage actMsg = .ok message) :
    ∃ body, actMsg.at action.name = .ok body ∧
      (body.at (text "id")).bind Value.asString = .ok message.id := by
  simp only [LocalAction.getMessage, bind_eq_ok, stringAt] at reads
  obtain ⟨body, isBody, id, isId, reads⟩ := reads
  refine ⟨body, isBody, bind_eq_ok.mpr ?_⟩
  suffices message.id = id by rwa [this]
  cases action with
  | startSession =>
      simp only [bind_eq_ok] at reads
      obtain ⟨_, -, _, -, _, -, _, -, _, -, made⟩ := reads
      rw [← Except.ok.inj made, ActionMsg.id]
  | closeSession => rw [← Except.ok.inj reads, ActionMsg.id]
  | getCdcmInfo =>
      obtain ⟨_, -, made⟩ := bind_eq_ok.mp reads
      rw [← Except.ok.inj made, ActionMsg.id]

/-- The id of the message of a local action is the one in its JSON object. -/
theorem actionId_of_readAction {actMsg : Value} {message : ActionMsg}
    (read : readAction actMsg = .ok (.inl message)) : actionId actMsg = some message.id := by
  simp only [readAction, bind_eq_ok, Value.getObject_eq_ok] at read
  obtain ⟨members, isObject, key, isFirst, found⟩ := read
  split at found
  next action isAction =>
    obtain ⟨_, reads, made⟩ := bind_eq_ok.mp found
    rw [Sum.inl.inj (Except.ok.inj made)] at reads
    have isName : action.name = key := by
      simpa using List.find?_some isAction
    obtain ⟨body, isBody, isId⟩ := getMessage_spec reads
    exact actionId_eq_some isObject isFirst (isName ▸ isBody) isId
  next => exact nomatch Except.ok.inj found

/-- The known actions of a message are those that were read as local ones. -/
theorem known_of_extractActions (actions : List Value) (extraction : Extraction) :
    ∃ messages, (extractActions actions extraction).1.known = extraction.known ++ messages ∧
      List.Forall₂ (fun actMsg message => actionId actMsg = some message.id)
        (localActions actions) messages := by
  induction actions generalizing extraction with
  | nil => exact ⟨[], (List.append_nil _).symm, .nil⟩
  | cons actMsg rest ih =>
      rw [extractActions, localActions]
      cases read : readAction actMsg with
      | error fault => exact ⟨[], (List.append_nil _).symm, .nil⟩
      | ok action =>
          dsimp only
          obtain ⟨messages, known, paired⟩ := ih (extraction.push action)
          rw [known]
          cases action with
          | inl message =>
              refine ⟨message :: messages, ?_, .cons (actionId_of_readAction read) paired⟩
              simp [Extraction.push]
          | inr actionObj => exact ⟨messages, rfl, paired⟩

theorem known_of_extract {library : Library} {mstr : ByteString} {actions : List Value}
    (isBody : bodyActions library mstr = some actions) :
    List.Forall₂ (fun actMsg message => actionId actMsg = some message.id)
      (localActions actions) (extract library mstr).1.known := by
  rw [bodyActions] at isBody
  rw [extract]
  cases header : extractHeader library mstr with
  | error fault => simp [header] at isBody
  | ok found =>
      obtain ⟨msgObject, hdr⟩ := found
      rw [header] at isBody
      dsimp only at isBody ⊢
      cases array : (Object.at msgObject (text "msgs")).bind Value.getArray with
      | error fault => simp [array] at isBody
      | ok msgsArray =>
          rw [array] at isBody
          obtain rfl := Option.some.inj isBody
          obtain ⟨messages, known, paired⟩ := known_of_extractActions msgsArray ⟨hdr, [], []⟩
          dsimp only
          rwa [known]

namespace MessageBroker

variable {env : Environment} {broker next : MessageBroker}

/-- The results of the known actions, one for each. -/
theorem doActs_results {sess : Option Session} {acts : Nat → ActInput}
    {known : List (ActionMsg × Nat)} {msgs results : List ResultMsg}
    (acted : known.foldlM (fun (broker, msgs) (actionMessage, position) =>
        doAct broker env sess (acts position) actionMessage msgs) (broker, msgs) =
      some (next, results)) :
    ∃ produced, results = msgs ++ produced ∧
      List.Forall₂ (fun entry res => ∃ sessions after,
        entry.1.act env sessions sess (acts entry.2) .new = some (after, res)) known produced := by
  induction known generalizing broker msgs with
  | nil =>
      simp only [List.foldlM_nil, Option.pure_def, Option.some.injEq, Prod.mk.injEq] at acted
      exact ⟨[], by rw [← acted.2, List.append_nil], .nil⟩
  | cons head tail ih =>
      simp only [List.foldlM_cons, Option.bind_eq_bind, Option.bind_eq_some_iff,
        Prod.exists] at acted
      obtain ⟨turned, _, first, rest⟩ := acted
      simp only [doAct, Option.bind_eq_bind, Option.bind_eq_some_iff, Prod.exists,
        Option.pure_def, Option.some.injEq, Prod.mk.injEq] at first
      obtain ⟨after, res, isActed, -, rfl⟩ := first
      obtain ⟨produced, isProduced, paired⟩ := ih rest
      refine ⟨res :: produced, ?_, .cons ⟨_, after, isActed⟩ paired⟩
      rw [isProduced, List.append_assoc, List.singleton_append]

/-- The session that the known actions of a message are given. -/
def sessionOf (broker : MessageBroker) (env : Environment) (input : ClientInput)
    (extraction : Extraction) : Option Session :=
  (broker.getSession env input.session extraction.hdr.sessionId).2

/-- What `client_process` sends for known actions. -/
theorem runKnown_results {input : ClientInput} {extraction : Extraction} {sender : ByteString}
    {msg : Zmsg} (known : extraction.known ≠ [])
    (ran : broker.runKnown env input extraction sender msg = some next) :
    ∃ (acted : MessageBroker) (results : List ResultMsg),
      acted.sendLocalToClient env ⟨extraction.hdr, results⟩ sender msg.unwrap.1 = some next ∧
        List.Forall₂ (fun entry res => ∃ sessions after,
          entry.1.act env sessions (broker.sessionOf env input extraction) (input.acts entry.2)
            .new = some (after, res)) extraction.known.zipIdx results := by
  rw [runKnown, if_pos known] at ran
  simp only [Option.bind_eq_bind, Option.bind_eq_some_iff, Prod.exists] at ran
  obtain ⟨acted, results, isActed, sent⟩ := ran
  obtain ⟨produced, isProduced, paired⟩ := doActs_results isActed
  rw [List.nil_append] at isProduced
  exact ⟨acted, results, sent, isProduced ▸ paired⟩

/-- What `client_process` sends for a malformed message. -/
theorem rejectMalformed_results {now : Int} {hdr : Header} {sender : ByteString}
    {msg rest : Zmsg}
    (rejected : broker.rejectMalformed env now hdr sender msg = some (next, rest)) :
    ∃ (before : MessageBroker) (res : ResultMsg),
      before.sendLocalToClient env ⟨hdr, [res]⟩ sender msg.unwrap.1 = some next ∧
        res.id = text "N/A" ∧ Assigned res.respStatus := by
  simp only [rejectMalformed, Option.bind_eq_bind, Option.bind_eq_some_iff, Option.pure_def,
    Option.some.injEq, Prod.mk.injEq] at rejected
  obtain ⟨res, isRes, _, sent, rfl, -⟩ := rejected
  have spec := setResponseForError_assigned isRes
  exact ⟨_, res, sent, spec⟩

end MessageBroker

end Cdcm.Frontend
