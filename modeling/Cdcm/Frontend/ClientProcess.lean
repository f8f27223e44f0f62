import Cdcm.Frontend.BrokerRun

/-!
# Malformed client messages

A message whose extraction throws should be answered with one `MALFORMED_MESSAGE`
result and have no other effect.  Execution goes on behind the `catch` block,
though, with whatever was extracted before the fault: the message is rejected as
a whole only if the fault comes before any action.
-/

namespace Cdcm.Frontend

open Json Protocol SessionsCache Zmq WorkerContainer

/-! ## Faults in front of any action -/

/-- An element of `msgs` that cannot be read. -/
def Unreadable (actMsg : Value) : Prop := ∃ fault, readAction actMsg = .error fault

/-- The elements of `msgs`, when the body can be read up to there. -/
def bodyActions (library : Library) (mstr : ByteString) : Option (List Value) :=
  match extractHeader library mstr with
  | .error _ => none
  | .ok (msgObject, _) =>
      match (Object.at msgObject (text "msgs")).bind Value.getArray with
      | .error _ => none
      | .ok msgsArray => some msgsArray

/-- In front of any action, something in the body cannot be read: the text, the
header, the array, or its first element. -/
def FaultComesFirst (library : Library) (mstr : ByteString) : Prop :=
  ∀ actMsg rest, bodyActions library mstr = some (actMsg :: rest) → Unreadable actMsg

/-- Nothing has been extracted. -/
def Extraction.Empty (extraction : Extraction) : Prop :=
  extraction.known = [] ∧ extraction.unknown = []

/-- What has been extracted stays. -/
theorem extractActions_not_empty {actions : List Value} {extraction : Extraction}
    (filled : ¬ extraction.Empty) : ¬ (extractActions actions extraction).1.Empty := by
  induction actions generalizing extraction with
  | nil => exact filled
  | cons actMsg rest ih =>
      rw [extractActions]
      split
      next action _ =>
        refine ih fun both => filled ?_
        cases action with
        | inl actM => simp [Extraction.push, Extraction.Empty] at both
        | inr actionObj => simp [Extraction.push, Extraction.Empty] at both
      next => exact filled

/-- A fault leaves nothing extracted exactly when it comes in front of any
action. -/
theorem extract_empty_iff {library : Library} {mstr : ByteString} {fault : Fault}
    (faulted : (extract library mstr).2 = some fault) :
    (extract library mstr).1.Empty ↔ FaultComesFirst library mstr := by
  rw [extract] at faulted ⊢
  rw [FaultComesFirst, bodyActions]
  cases header : extractHeader library mstr with
  | error _ => exact iff_of_true ⟨rfl, rfl⟩ nofun
  | ok found =>
      obtain ⟨msgObject, hdr⟩ := found
      rw [header] at faulted
      dsimp only at faulted ⊢
      cases array : (Object.at msgObject (text "msgs")).bind Value.getArray with
      | error _ => exact iff_of_true ⟨rfl, rfl⟩ nofun
      | ok actions =>
          rw [array] at faulted
          dsimp only at faulted ⊢
          cases actions with
          | nil => contradiction
          | cons actMsg rest =>
              rw [extractActions] at faulted ⊢
              cases read : readAction actMsg with
              | error other =>
                  refine iff_of_true ⟨rfl, rfl⟩ ?_
                  rintro _ _ ⟨⟩
                  exact ⟨other, read⟩
              | ok action =>
                  refine iff_of_false (extractActions_not_empty ?_) fun first => ?_
                  · cases action <;> simp [Extraction.push, Extraction.Empty]
                  · obtain ⟨_, impossible⟩ := first actMsg rest rfl
                    rw [read] at impossible
                    contradiction

/-! ## The session cache -/

/-- Two caches that differ in the expiry of one session at most. -/
def OnlyTouched (sessionId : ByteString) (before after : SharedMemSessionsCache) : Prop :=
  ∀ id, (after.map.lookup Tag.id id).map SharedMemSessionElement.session =
      (before.map.lookup Tag.id id).map SharedMemSessionElement.session ∧
    (id ≠ cStr sessionId → after.map.lookup Tag.id id = before.map.lookup Tag.id id)

namespace OnlyTouched

variable {sessionId : ByteString} {first second third : SharedMemSessionsCache}

theorem refl (cache : SharedMemSessionsCache) : OnlyTouched sessionId cache cache :=
  fun _ => ⟨rfl, fun _ => rfl⟩

theorem trans (before : OnlyTouched sessionId first second)
    (after : OnlyTouched sessionId second third) : OnlyTouched sessionId first third :=
  fun id => ⟨(after id).1.trans (before id).1,
    fun other => ((after id).2 other).trans ((before id).2 other)⟩

theorem touchBy (uuidText : UuidText) (now : Int) (sessionId : ByteString)
    (cache : SharedMemSessionsCache) :
    OnlyTouched sessionId cache (cache.touchBy uuidText .id now sessionId).1 := by
  intro id
  rw [SharedMemSessionsCache.lookup_touchBy]
  cases stored : cache.map.lookup Tag.id id with
  | none => exact ⟨rfl, fun _ => rfl⟩
  | some element =>
      have uuid : element.session.uuid = id := by
        obtain ⟨_, _, _, equal⟩ :=
          (MultiIndex.Container.lookup_eq_some SharedMemSessionsCache.unique_id).mp stored
        exact equal
      simp only [Option.map_some, SharedMemSessionsCache.touched,
        SharedMemSessionsCache.keyOf, uuid, Option.some.injEq]
      refine ⟨?_, fun other => if_neg other⟩
      split <;> rfl

end OnlyTouched

namespace MessageBroker

variable {env : Environment} {broker next : MessageBroker}

theorem getSession_onlyTouched (now : Int) (sessionId : ByteString) :
    OnlyTouched sessionId broker.sessions (broker.getSession env now sessionId).1.sessions := by
  change OnlyTouched sessionId broker.sessions
    (broker.sessions.getSessionBy env.uuidText .id now sessionId).1
  rw [SharedMemSessionsCache.getSessionBy_fst]
  exact .touchBy _ _ _ _

theorem touchSession_onlyTouched (now : Int) (hdr : Header) :
    OnlyTouched hdr.sessionId broker.sessions
      (broker.touchSession env now hdr).sessions := by
  rw [touchSession]
  split
  · exact .touchBy _ _ _ _
  · exact .refl _

/-! ## Replies of the broker itself -/

/-- Everything in a local reply is written as a C string, so it always goes out. -/
theorem localReply_sends (sender client body : ByteString) :
    (localReply sender client body).send.isSome := by
  refine Zmsg.send_isSome fun part member => ?_
  simp only [localReply, Zmsg.bodySet, Zmsg.emplaceBack, Zmsg.empty, Zmsg.partData_wrap,
    List.dropLast_nil, List.nil_append, List.mem_cons, List.not_mem_nil, or_false] at member
  rcases member with rfl | rfl | rfl | rfl | rfl <;> exact zero_not_mem_cStr _

/-- With both addresses, a response that prints is one message for the sender. -/
theorem sendLocalToClient_eq {resultMessage : ResMsg} {sender client body : ByteString}
    (addressed : client ≠ [] ∧ sender ≠ [])
    (printed : resultMessage.print env.library (some 2) = some body) :
    broker.sendLocalToClient env resultMessage sender client =
      some (broker.record
        (.sent .external (localReply sender client body) broker.workers)) := by
  obtain ⟨frames, sent⟩ := Option.isSome_iff_exists.mp (localReply_sends sender client body)
  rw [sendLocalToClient, if_pos addressed, printed]
  simp [sendOn, sent]

/-- Every execution of a local action is counted. -/
theorem doActs_replied {sess : Option Session} {acts : Nat → ActInput}
    {known : List (ActionMsg × Nat)} {msgs results : List ResultMsg}
    (acted : known.foldlM (fun (broker, msgs) (actionMessage, position) =>
        doAct broker env sess (acts position) actionMessage msgs) (broker, msgs) =
      some (next, results)) :
    next.replied = broker.replied + known.length := by
  induction known generalizing broker msgs with
  | nil =>
      simp only [List.foldlM_nil, Option.pure_def, Option.some.injEq, Prod.mk.injEq] at acted
      rw [← acted.1, List.length_nil, Nat.add_zero]
  | cons head tail ih =>
      simp only [List.foldlM_cons, Option.bind_eq_bind, Option.bind_eq_some_iff,
        Prod.exists] at acted
      obtain ⟨turned, _, first, rest⟩ := acted
      have one : turned.replied = broker.replied + 1 := by
        simp only [doAct, Option.bind_eq_bind, Option.bind_eq_some_iff, Prod.exists,
          Option.pure_def, Option.some.injEq, Prod.mk.injEq] at first
        obtain ⟨_, _, _, rfl, _⟩ := first
        rfl
      rw [ih rest, one, List.length_cons]
      omega

/-- Sending a reply counts nothing. -/
theorem sendLocalToClient_replied {resultMessage : ResMsg} {sender client : ByteString}
    (sent : broker.sendLocalToClient env resultMessage sender client = some next) :
    next.replied = broker.replied := by
  rw [sendLocalToClient] at sent
  split at sent
  · simp only [Option.bind_eq_bind, Option.bind_eq_some_iff] at sent
    obtain ⟨_, _, sent⟩ := sent
    rw [(sendOn_spec sent).1]
    rfl
  · exact congrArg replied (Option.some.inj sent).symm

/-- `runKnown` counts the known actions. -/
theorem runKnown_replied {input : ClientInput} {extraction : Extraction}
    {sender : ByteString} {msg : Zmsg}
    (ran : broker.runKnown env input extraction sender msg = some next) :
    next.replied = broker.replied + extraction.known.length := by
  rw [runKnown] at ran
  split at ran
  next =>
    simp only [Option.bind_eq_bind, Option.bind_eq_some_iff, Prod.exists] at ran
    obtain ⟨acted, results, isActed, sent⟩ := ran
    rw [sendLocalToClient_replied sent, doActs_replied isActed, List.length_zipIdx]
    rfl
  next none =>
    obtain rfl := Option.some.inj ran
    rw [not_not.mp none, List.length_nil, Nat.add_zero]

theorem touchSession_replied (now : Int) (hdr : Header) :
    (broker.touchSession env now hdr).replied = broker.replied := by
  rw [touchSession]
  split <;> rfl

theorem touchSession_requests (now : Int) (hdr : Header) :
    (broker.touchSession env now hdr).requests = broker.requests := by
  rw [touchSession]
  split <;> rfl

theorem touchSession_workers (now : Int) (hdr : Header) :
    (broker.touchSession env now hdr).workers = broker.workers := by
  rw [touchSession]
  split <;> rfl

theorem touchSession_journal (now : Int) (hdr : Header) :
    (broker.touchSession env now hdr).journal = broker.journal := by
  rw [touchSession]
  split <;> rfl

theorem rejectMalformed_replied {now : Int} {hdr : Header} {sender : ByteString}
    {msg rest : Zmsg}
    (rejected : broker.rejectMalformed env now hdr sender msg = some (next, rest)) :
    next.replied = broker.replied := by
  simp only [rejectMalformed, Option.bind_eq_bind, Option.bind_eq_some_iff,
    Option.pure_def, Option.some.injEq, Prod.mk.injEq] at rejected
  obtain ⟨_, _, _, sent, rfl, _⟩ := rejected
  rw [sendLocalToClient_replied sent]
  rfl

/-! ## Rejection as a whole -/

/-- The one result of a malformed message. -/
def malformedResult : Option ResultMsg :=
  { ResultMsg.new with id := text "N/A" }.setResponseForError .malformedMessage

/-- The text of the answer to a malformed message. -/
def malformedBody (env : Environment) (hdr : Header) : Option ByteString := do
  let res ← malformedResult
  ResMsg.print env.library (some 2) ⟨hdr, [res]⟩

/-- A client message is rejected as a whole: one reply goes out, to the sender and
with the client's envelope frame; no local action is executed, the sessions are
the same up to a touch, and nothing is queued, handed on or sent to a worker. -/
structure RejectedWhole (env : Environment) (broker : MessageBroker) (hdr : Header)
    (sender : ByteString) (msg : Zmsg) (next : MessageBroker)
    (call : Option DispatchCall) : Prop where
  reply : ∃ body, malformedBody env hdr = some body ∧
    next.journal = broker.journal ++
      [.sent .external (localReply sender msg.unwrap.1 body) broker.workers]
  replied : next.replied = broker.replied
  sessions : OnlyTouched hdr.sessionId broker.sessions next.sessions
  requests : next.requests = broker.requests
  workers : next.workers = broker.workers
  call : call = none

theorem malformedBody_isSome (env : Environment) (hdr : Header) :
    (malformedBody env hdr).isSome := by
  rfl

/-- The `catch` block answers a sender with two addresses. -/
theorem rejectMalformed_eq (now : Int) (hdr : Header) {sender : ByteString} {msg : Zmsg}
    {body : ByteString} (printed : malformedBody env hdr = some body)
    (addressed : msg.unwrap.1 ≠ [] ∧ sender ≠ []) :
    broker.rejectMalformed env now hdr sender msg =
      some ((broker.getSession env now hdr.sessionId).1.record
        (.sent .external (localReply sender msg.unwrap.1 body) broker.workers),
        msg.unwrap.2) := by
  simp only [malformedBody, Option.bind_eq_bind, Option.bind_eq_some_iff] at printed
  obtain ⟨res, isRes, printed⟩ := printed
  have isResult := isRes
  rw [malformedResult] at isResult
  rw [rejectMalformed, isResult]
  simp only [Option.bind_eq_bind, Option.bind_some, sendLocalToClient_eq addressed printed]
  rfl

/-- Without one of the addresses, the `catch` block answers nobody. -/
theorem rejectMalformed_unaddressed {now : Int} {hdr : Header} {sender : ByteString}
    {msg rest : Zmsg} (unaddressed : ¬ (msg.unwrap.1 ≠ [] ∧ sender ≠ []))
    (rejected : broker.rejectMalformed env now hdr sender msg = some (next, rest)) :
    next.journal = broker.journal := by
  simp only [rejectMalformed, sendLocalToClient, if_neg unaddressed, Option.bind_eq_bind,
    Option.bind_eq_some_iff, Option.pure_def, Option.some.injEq, Prod.mk.injEq] at rejected
  obtain ⟨_, _, _, rfl, rfl, _⟩ := rejected
  rfl

/-- What follows a caught exception. -/
theorem clientProcess_malformed {input : ClientInput} {sender : ByteString} {msg : Zmsg}
    {extraction : Extraction} {call : Option DispatchCall} (withBody : 2 ≤ msg.parts)
    (extracted : extract env.library (cStr (msg.body.getD [])) =
      (extraction, some .exception)) :
    broker.clientProcess env input sender msg = some (next, call) ↔
      ∃ rejected rest ran,
        broker.rejectMalformed env input.malformed extraction.hdr sender msg =
            some (rejected, rest) ∧
          (rejected.touchSession env input.touch extraction.hdr).runKnown env input
              extraction sender rest = some ran ∧
          ran.passUnknown env extraction sender = (next, call) := by
  rw [clientProcess, if_neg (Nat.not_lt.mpr withBody)]
  simp only [extracted, endTry, Option.bind_eq_bind, Option.bind_eq_some_iff, Prod.exists,
    Option.pure_def, Option.some.injEq]
  constructor
  · rintro ⟨rejected, rest, isRejected, ran, isRan, passed⟩
    exact ⟨rejected, rest, ran, isRejected, isRan, passed⟩
  · rintro ⟨rejected, rest, ran, isRejected, isRan, passed⟩
    exact ⟨rejected, rest, isRejected, ran, isRan, passed⟩

/-- Rejected as a whole, a message had nothing extracted from it and had both
addresses. -/
theorem empty_of_rejectedWhole {input : ClientInput} {sender : ByteString} {msg : Zmsg}
    {extraction : Extraction} {call : Option DispatchCall} (withBody : 2 ≤ msg.parts)
    (extracted : extract env.library (cStr (msg.body.getD [])) =
      (extraction, some .exception))
    (processed : broker.clientProcess env input sender msg = some (next, call))
    (whole : RejectedWhole env broker extraction.hdr sender msg next call) :
    extraction.Empty ∧ msg.unwrap.1 ≠ [] ∧ sender ≠ [] := by
  obtain ⟨rejected, rest, ran, isRejected, isRan, passed⟩ :=
    (clientProcess_malformed withBody extracted).mp processed
  have unknownEmpty : extraction.unknown = [] := by
    by_contra nonempty
    rw [passUnknown, if_pos nonempty] at passed
    cases (congrArg Prod.snd passed).trans whole.call
  rw [passUnknown, if_neg (not_not.mpr unknownEmpty)] at passed
  obtain ⟨rfl, rfl⟩ := Prod.mk.inj passed
  have knownEmpty : extraction.known = [] := by
    have counted := runKnown_replied isRan
    rw [touchSession_replied, rejectMalformed_replied isRejected, whole.replied] at counted
    exact List.length_eq_zero_iff.mp (by omega)
  refine ⟨⟨knownEmpty, unknownEmpty⟩, ?_⟩
  -- Without an address the `catch` block sends nothing, and nothing follows it.
  by_contra unaddressed
  have silent := rejectMalformed_unaddressed unaddressed isRejected
  rw [runKnown, if_neg (not_not.mpr knownEmpty)] at isRan
  obtain rfl := Option.some.inj isRan
  obtain ⟨body, _, journal⟩ := whole.reply
  rw [touchSession_journal, silent] at journal
  simp at journal

/-- A message without extracted actions and with both addresses is rejected as a
whole. -/
theorem rejectedWhole_of_empty (input : ClientInput) {sender : ByteString} {msg : Zmsg}
    {extraction : Extraction} (withBody : 2 ≤ msg.parts)
    (extracted : extract env.library (cStr (msg.body.getD [])) =
      (extraction, some .exception))
    (empty : extraction.Empty) (addressed : msg.unwrap.1 ≠ [] ∧ sender ≠ []) :
    ∃ next call, broker.clientProcess env input sender msg = some (next, call) ∧
      RejectedWhole env broker extraction.hdr sender msg next call := by
  obtain ⟨body, printed⟩ :=
    Option.isSome_iff_exists.mp (malformedBody_isSome env extraction.hdr)
  have rejected := @rejectMalformed_eq env broker input.malformed extraction.hdr sender msg
    body printed addressed
  refine ⟨_, _, (clientProcess_malformed withBody extracted).mpr
    ⟨_, _, _, rejected, if_neg (not_not.mpr empty.1), if_neg (not_not.mpr empty.2)⟩, ?_⟩
  exact
    { reply := ⟨body, printed, by rw [touchSession_journal]; rfl⟩
      replied := by rw [touchSession_replied]; rfl
      sessions := (getSession_onlyTouched _ _).trans (touchSession_onlyTouched _ _)
      requests := by rw [touchSession_requests]; rfl
      workers := by rw [touchSession_workers]; rfl
      call := rfl }

/-- The all-or-nothing rejection of a malformed client message happens exactly
when the fault comes in front of any action and both addresses are there. -/
theorem malformed_rejected_whole {input : ClientInput} {sender : ByteString} {msg : Zmsg}
    (withBody : 2 ≤ msg.parts)
    (malformed : (extract env.library (cStr (msg.body.getD []))).2 = some .exception) :
    (∃ next call, broker.clientProcess env input sender msg = some (next, call) ∧
        RejectedWhole env broker (extract env.library (cStr (msg.body.getD []))).1.hdr
          sender msg next call) ↔
      FaultComesFirst env.library (cStr (msg.body.getD [])) ∧
        msg.unwrap.1 ≠ [] ∧ sender ≠ [] := by
  have extracted : extract env.library (cStr (msg.body.getD [])) =
      ((extract env.library (cStr (msg.body.getD []))).1, some .exception) :=
    Prod.ext rfl malformed
  rw [← extract_empty_iff malformed]
  constructor
  · rintro ⟨next, call, processed, whole⟩
    exact empty_of_rejectedWhole withBody extracted processed whole
  · rintro ⟨empty, addressed⟩
    exact rejectedWhole_of_empty input withBody extracted empty addressed

/-- A client message with a body, as `client_process` receives it. -/
def sampleMsg (body : Value) : Zmsg := ⟨[text "cdcm", body.print none 0]⟩

/-- The surroundings of a client message at time 0. -/
def sampleInput : ClientInput := ⟨0, 0, 0, fun _ => ⟨0, 1, .succeeds⟩, 0⟩

/-- A number in front of any action. -/
theorem malformed_rejected_whole_number :
    ∃ next call, sampleBroker.clientProcess (sampleEnv [sampleBody [.unsigned 5]])
        sampleInput (text "client") (sampleMsg (sampleBody [.unsigned 5])) =
          some (next, call) ∧
      RejectedWhole (sampleEnv [sampleBody [.unsigned 5]]) sampleBroker ⟨text "N/A"⟩
        (text "client") (sampleMsg (sampleBody [.unsigned 5])) next call := by
  have malformed : (extract (sampleEnv [sampleBody [.unsigned 5]]).library
      (cStr ((sampleMsg (sampleBody [.unsigned 5])).body.getD []))).2 =
        some .exception := by decide +kernel
  have header : (extract (sampleEnv [sampleBody [.unsigned 5]]).library
      (cStr ((sampleMsg (sampleBody [.unsigned 5])).body.getD []))).1.hdr =
        ⟨text "N/A"⟩ := by decide +kernel
  have empty : (extract (sampleEnv [sampleBody [.unsigned 5]]).library
      (cStr ((sampleMsg (sampleBody [.unsigned 5])).body.getD []))).1.Empty :=
    ⟨List.isEmpty_iff.mp (by decide +kernel), List.isEmpty_iff.mp (by decide +kernel)⟩
  rw [← header]
  exact (malformed_rejected_whole (by decide) malformed).mpr
    ⟨(extract_empty_iff malformed).mp empty, by decide, by decide⟩

/-- An action of a worker in front of a number: the message is answered as
malformed, and the action is still handed on. -/
theorem mixedBody_hands_on :
    (extract (sampleEnv [sampleBody [pingAction "1", .unsigned 5]]).library
      (cStr ((sampleMsg (sampleBody [pingAction "1", .unsigned 5])).body.getD []))).2 =
        some .exception ∧
    ∃ next call,
      sampleBroker.clientProcess (sampleEnv [sampleBody [pingAction "1", .unsigned 5]])
          sampleInput (text "client")
          (sampleMsg (sampleBody [pingAction "1", .unsigned 5])) = some (next, call) ∧
        call.isSome ∧
        ¬ RejectedWhole (sampleEnv [sampleBody [pingAction "1", .unsigned 5]]) sampleBroker
          ⟨text "N/A"⟩ (text "client")
          (sampleMsg (sampleBody [pingAction "1", .unsigned 5])) next call := by
  refine ⟨by decide +kernel, ?_⟩
  have handsOn : ((sampleBroker.clientProcess
      (sampleEnv [sampleBody [pingAction "1", .unsigned 5]]) sampleInput (text "client")
      (sampleMsg (sampleBody [pingAction "1", .unsigned 5]))).any
        fun processed => processed.2.isSome) = true := by decide +kernel
  obtain ⟨⟨next, call⟩, processed, made⟩ := (Option.any_eq_true _ _).mp handsOn
  have notNone : call ≠ none := Option.isSome_iff_ne_none.mp made
  exact ⟨next, call, processed, made, fun whole => notNone whole.call⟩

end MessageBroker

end Cdcm.Frontend
