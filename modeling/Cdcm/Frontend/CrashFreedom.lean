import Cdcm.Frontend.ClientProcess
import Cdcm.Frontend.WorkConservation

/-!
# Messages that the broker survives

A message may violate an assertion, make the trace of `handle_message` index a part of
an empty message, or be read in ways that are undefined.  Which messages do so is a
matter of their frames, of their body and of who is registered; nothing else in the
state of a broker stops it.
-/

namespace Cdcm.Frontend

open Json Protocol SessionsCache Zmq WorkerContainer Machine

/-! ## Extraction -/

/-- The extraction comes to an action that is the empty object. -/
def MeetsEmpty (library : Library) (mstr : ByteString) : Prop :=
  ∃ front rest, bodyActions library mstr = some (front ++ .object [] :: rest) ∧
    ∀ actMsg ∈ front, ¬ Unreadable actMsg

theorem stringAt_ne_undefined (body : Value) (key : ByteString) :
    stringAt body key ≠ .error .undefined := by
  apply bind_ne_undefined (Value.at_ne_undefined body key)
  intro value
  cases value <;> nofun

/-- Reading the message of a local action throws or ends well. -/
theorem getMessage_ne_undefined (action : LocalAction) (actMsg : Value) :
    action.getMessage actMsg ≠ .error .undefined := by
  apply bind_ne_undefined (Value.at_ne_undefined actMsg action.name)
  intro body
  apply bind_ne_undefined (stringAt_ne_undefined body _)
  intro id
  cases action with
  | startSession =>
      apply bind_ne_undefined (stringAt_ne_undefined body _)
      intro remote
      apply bind_ne_undefined (stringAt_ne_undefined body _)
      intro domain
      apply bind_ne_undefined (stringAt_ne_undefined body _)
      intro username
      apply bind_ne_undefined (stringAt_ne_undefined body _)
      intro password
      apply bind_ne_undefined (stringAt_ne_undefined body _)
      intro workstation
      nofun
  | closeSession => nofun
  | getCdcmInfo =>
      apply bind_ne_undefined (stringAt_ne_undefined body _)
      intro what
      nofun

/-- An object with members is read by its first key. -/
theorem readAction_cons (key : ByteString) (value : Value) (rest : Object) :
    readAction (.object ((key, value) :: rest)) =
      match LocalAction.find key with
      | some act1 => do return .inl (← act1.getMessage (.object ((key, value) :: rest)))
      | none => .ok (.inr ((key, value) :: rest)) := rfl

/-- Only the empty object has no first member. -/
theorem readAction_undefined_iff {actMsg : Value} :
    readAction actMsg = .error .undefined ↔ actMsg = .object [] := by
  constructor
  · cases actMsg with
    | object members =>
        cases members with
        | nil => exact fun _ => rfl
        | cons first rest =>
            intro undefined
            rw [readAction_cons] at undefined
            split at undefined
            · exact absurd undefined (bind_ne_undefined (getMessage_ne_undefined _ _) nofun)
            · contradiction
    | null => nofun
    | boolean _ => nofun
    | signed _ => nofun
    | unsigned _ => nofun
    | double _ => nofun
    | string _ => nofun
    | array _ => nofun
  · rintro rfl
    rfl

theorem extractHeader_ne_undefined (library : Library) (mstr : ByteString) :
    extractHeader library mstr ≠ .error .undefined := by
  rw [extractHeader]
  split
  · nofun
  · next reqBodyAsJson _ =>
      apply bind_ne_undefined reqBodyAsJson.getObject_ne_undefined
      intro msgObject
      apply bind_ne_undefined (Object.at_ne_undefined msgObject _)
      intro header
      apply bind_ne_undefined (Header.ofValue_ne_undefined header)
      nofun

theorem extractActions_undefined_iff {actions : List Value} {extraction : Extraction} :
    (extractActions actions extraction).2 = some .undefined ↔
      ∃ front rest, actions = front ++ .object [] :: rest ∧
        ∀ actMsg ∈ front, ¬ Unreadable actMsg := by
  induction actions generalizing extraction with
  | nil => simp [extractActions]
  | cons actMsg rest ih =>
      rw [extractActions]
      cases read : readAction actMsg with
      | ok action =>
          rw [ih]
          constructor
          · rintro ⟨front, last, rfl, readable⟩
            refine ⟨actMsg :: front, last, rfl, List.forall_mem_cons.mpr ⟨?_, readable⟩⟩
            rintro ⟨fault, faulted⟩
            rw [read] at faulted
            contradiction
          · rintro ⟨front, last, whole, readable⟩
            cases front with
            | nil =>
                obtain ⟨rfl, _⟩ := List.cons.inj whole
                rw [readAction_undefined_iff.mpr rfl] at read
                contradiction
            | cons head tail =>
                obtain ⟨rfl, rfl⟩ := List.cons.inj whole
                exact ⟨tail, last, rfl, (List.forall_mem_cons.mp readable).2⟩
      | error fault =>
          constructor
          · intro undefined
            obtain rfl := Option.some.inj undefined
            obtain rfl := readAction_undefined_iff.mp read
            exact ⟨[], rest, rfl, fun actMsg member => absurd member List.not_mem_nil⟩
          · rintro ⟨front, last, whole, readable⟩
            cases front with
            | nil =>
                obtain ⟨rfl, _⟩ := List.cons.inj whole
                rw [readAction_undefined_iff.mpr rfl] at read
                exact congrArg some (Except.error.inj read).symm
            | cons head tail =>
                obtain ⟨rfl, rfl⟩ := List.cons.inj whole
                exact absurd ⟨fault, read⟩ (readable actMsg List.mem_cons_self)

/-- The extraction is undefined exactly when it comes to the empty object. -/
theorem extract_undefined_iff {library : Library} {mstr : ByteString} :
    (extract library mstr).2 = some .undefined ↔ MeetsEmpty library mstr := by
  rw [extract, MeetsEmpty, bodyActions]
  cases header : extractHeader library mstr with
  | error fault =>
      refine iff_of_false ?_ (by rintro ⟨_, _, ⟨⟩, _⟩)
      intro undefined
      obtain rfl := Option.some.inj undefined
      exact extractHeader_ne_undefined library mstr header
  | ok found =>
      obtain ⟨msgObject, hdr⟩ := found
      dsimp only
      cases array : (Object.at msgObject (text "msgs")).bind Value.getArray with
      | error fault =>
          refine iff_of_false ?_ (by rintro ⟨_, _, ⟨⟩, _⟩)
          intro undefined
          obtain rfl := Option.some.inj undefined
          exact bind_ne_undefined (Object.at_ne_undefined _ _) Value.getArray_ne_undefined array
      | ok actions =>
          rw [extractActions_undefined_iff]
          simp only [Option.some.injEq]

namespace MessageBroker

variable {env : Environment} {broker next : MessageBroker}

/-! ## Dispatch -/

theorem sendOn_isSome {socket : Socket} {msg : Zmsg} :
    (broker.sendOn socket msg).isSome = msg.send.isSome := by
  rw [sendOn]
  cases msg.send <;> rfl

/-- A message to a worker goes out when its payload has no NUL bytes. -/
theorem workerSend_isSome {worker : Worker} {command : ByteString} {msg : Option Zmsg}
    (nulFree : ∀ part ∈ (msg.getD .empty).partData, 0 ∉ part) :
    (broker.workerSend worker command [] msg).isSome := by
  rw [workerSend, sendOn_isSome, workerMessage_eq]
  apply Zmsg.send_isSome
  intro part member
  simp only [List.mem_cons] at member
  rcases member with rfl | rfl | rfl | rfl | payload
  · exact zero_not_mem_cStr _
  · exact List.not_mem_nil
  · decide
  · exact zero_not_mem_cStr _
  · exact nulFree part payload

theorem workerDelete_isSome {worker : Worker} {sendDisconnect : Bool} :
    (broker.workerDelete worker sendDisconnect).isSome := by
  cases sendDisconnect with
  | false => rfl
  | true =>
      obtain ⟨told, isTold⟩ := Option.isSome_iff_exists.mp
        (@workerSend_isSome broker worker mdpwDisconnect none
          fun part member => absurd member List.not_mem_nil)
      simp [workerDelete, isTold]

/-- With a registered worker, there is one to take next. -/
theorem selectWorker_isSome {identity sessId : ByteString} {worker : Worker}
    (registered : broker.workers.get identity = some worker) :
    (broker.selectWorker sessId).isSome := by
  have hasNext := getNextWorker_isSome registered
  rw [selectWorker]
  split
  · split
    · exact hasNext
    · rfl
  · exact hasNext

theorem dispatchTurn_isSome {id identity : ByteString} {front : Zmsg × ByteString}
    {rest : List (Zmsg × ByteString)} {worker : Worker}
    (registered : broker.workers.get identity = some worker)
    (nulFree : ∀ part ∈ front.1.partData, 0 ∉ part) :
    (broker.dispatchTurn id front rest).isSome := by
  obtain ⟨selected, isSelected⟩ := Option.isSome_iff_exists.mp
    (@selectWorker_isSome broker identity front.2 worker registered)
  obtain ⟨told, isTold⟩ := Option.isSome_iff_exists.mp
    (@workerSend_isSome { broker with requests := rest } selected mdpwRequest (some front.1)
      nulFree)
  have sameWorkers : told.workers = broker.workers := by
    rw [(sendOn_spec isTold).1]
    rfl
  have stays : ((told.workers.setBusy selected.identity).1.get selected.identity).isSome := by
    rw [get_setBusy, if_pos rfl, sameWorkers, selectWorker_registered isSelected]
    rfl
  obtain ⟨⟨workers, modified⟩, isUpdated⟩ := Option.isSome_iff_exists.mp
    ((@modifyById_isSome _ _ fun worker => { worker with lastWorkedSession := id }).trans stays)
  rw [dispatchTurn, isSelected]
  simp only [Option.bind_eq_bind, Option.bind_some, isTold, updateLastWorked, isUpdated]
  rfl

theorem dispatchLoop_isSome {range : WorkerIterator × WorkerIterator} {id : ByteString}
    {pending : List (Zmsg × ByteString)}
    (anyRegistered : WorkerIterator.same range.1 range.2 = false →
      ∃ identity worker, broker.workers.get identity = some worker)
    (nulFree : ∀ queued ∈ pending, ∀ part ∈ queued.1.partData, 0 ∉ part) :
    (dispatchLoop range id pending broker).isSome := by
  induction pending generalizing broker with
  | nil => rw [dispatchLoop_nil, Option.isSome_some]
  | cons front rest ih =>
      rw [dispatchLoop_cons]
      split
      next entered =>
        obtain ⟨identity, worker, registered⟩ := anyRegistered (by simpa using entered)
        obtain ⟨turned, isTurned⟩ := Option.isSome_iff_exists.mp
          (@dispatchTurn_isSome broker id identity front rest worker registered
            (nulFree front List.mem_cons_self))
        obtain ⟨selected, effect⟩ := dispatchTurn_spec isTurned
        rw [isTurned]
        apply ih
        · intro _
          refine ⟨selected.identity,
            { selected with idle := false, lastWorkedSession := id }, ?_⟩
          rw [effect.get, if_pos rfl]
        · exact fun queued member => nulFree queued (List.mem_cons_of_mem _ member)
      next => rfl

/-- A dispatch of requests without NUL bytes completes. -/
theorem serviceDispatch_isSome {now : Int} {call : DispatchCall}
    (nulFree : ∀ queued ∈ (broker.enqueue call).requests, ∀ part ∈ queued.1.partData,
      0 ∉ part) : (broker.serviceDispatch now call).isSome := by
  rw [serviceDispatch_eq]
  apply dispatchLoop_isSome _ nulFree
  intro anyIdle
  have notAllBusy : ¬ ∀ identity worker, (broker.purgedFor now call).workers.get identity =
      some worker → worker.idle = false := by
    intro allBusy
    exact Bool.false_ne_true (anyIdle.symm.trans (idleWorkers_same.mpr allBusy))
  push Not at notAllBusy
  obtain ⟨identity, worker, registered, _⟩ := notAllBusy
  exact ⟨identity, worker, registered⟩

/-! ## Messages of workers -/

theorem workerWaiting_isSome {clock : WorkerClock} {worker : Worker}
    (registered : (broker.workers.get worker.identity).isSome) :
    (broker.workerWaiting clock worker).isSome := by
  have stays : ((broker.workers.setIdle worker.identity).1.get worker.identity).isSome := by
    rw [get_setIdle, if_pos rfl, Option.isSome_map]
    exact registered
  obtain ⟨⟨workers, modified⟩, isUpdated⟩ := Option.isSome_iff_exists.mp
    (modifyById_isSome.trans stays)
  rw [workerWaiting, updateExpiration, isUpdated]
  rfl

/-- The reply of a worker is forwarded exactly when its frames are sendable. -/
theorem forwardReply_isSome_iff {clock : WorkerClock} {worker : Worker} {msg : Zmsg}
    (registered : (broker.workers.get worker.identity).isSome) :
    (broker.forwardReply clock worker msg).isSome ↔
      (msg.unwrap.1 ≠ [] → ∀ part ∈ msg.unwrap.2.partData, Sendable part) := by
  rw [forwardReply]
  cases unwrapped : msg.unwrap with
  | mk client rest =>
      dsimp only
      by_cases empty : client = []
      · rw [if_pos empty]
        exact iff_of_true rfl fun named => absurd empty named
      · rw [if_neg empty]
        have wrapped : (clientReply client rest).send.isSome ↔
            ∀ part ∈ rest.partData, Sendable part := by
          have addresses : ∀ part ∈ [cStr client, [], cStr mdpcClient, []], Sendable part := by
            intro part member _
            simp only [List.mem_cons, List.not_mem_nil, or_false] at member
            rcases member with rfl | rfl | rfl | rfl
            · exact zero_not_mem_cStr _
            · exact List.not_mem_nil
            · exact zero_not_mem_cStr _
            · exact List.not_mem_nil
          have parts : (clientReply client rest).partData =
              [cStr client, [], cStr mdpcClient, []] ++ rest.partData := rfl
          rw [Zmsg.send_isSome_iff, parts, List.forall_mem_append]
          exact and_iff_right addresses
        rw [← wrapped, ← @sendOn_isSome broker .external]
        constructor
        · intro completes _
          obtain ⟨_, forwarded⟩ := Option.isSome_iff_exists.mp completes
          obtain ⟨_, sent, _⟩ := Option.bind_eq_some_iff.mp forwarded
          rw [sent]
          rfl
        · intro sends
          obtain ⟨forwarded, sent⟩ := Option.isSome_iff_exists.mp (sends empty)
          rw [sent]
          apply workerWaiting_isSome
          rw [(sendOn_spec sent).1]
          exact registered

/-- Of the commands, only the reply of a registered worker can fail. -/
theorem processCommand_isSome_iff {clock : WorkerClock} {worker : Worker}
    {workerReady : Bool} {command : ByteString} {msg : Zmsg}
    (registered : (broker.workers.get worker.identity).isSome) :
    (broker.processCommand clock worker.identity workerReady worker command msg).isSome ↔
      (command = mdpwReply → workerReady = true → msg.unwrap.1 ≠ [] →
        ∀ part ∈ msg.unwrap.2.partData, Sendable part) := by
  have deletes : ∀ sendDisconnect, ∃ deleted,
      broker.workerDelete worker sendDisconnect = some deleted := fun sendDisconnect =>
    Option.isSome_iff_exists.mp workerDelete_isSome
  obtain ⟨disconnected, isDisconnected⟩ := deletes true
  obtain ⟨erased, isErased⟩ := deletes false
  rcases command_cases command with rfl | rfl | rfl | rfl | unhandled
  · refine iff_of_true ?_ (fun isReply => absurd isReply (by decide))
    rw [processCommand, if_pos rfl]
    split
    · rw [isDisconnected]
      rfl
    · exact workerWaiting_isSome registered
  · have notReady : mdpwReply ≠ mdpwReady := by decide
    rw [processCommand, if_neg notReady, if_pos rfl]
    cases workerReady with
    | false =>
        refine iff_of_true ?_ fun _ notReady => by cases notReady
        simp [isDisconnected]
    | true =>
        rw [if_pos rfl, forwardReply_isSome_iff registered]
        simp
  · refine iff_of_true ?_ (fun isReply => absurd isReply (by decide))
    have notReady : mdpwHeartbeat ≠ mdpwReady := by decide
    have notReply : mdpwHeartbeat ≠ mdpwReply := by decide
    rw [processCommand, if_neg notReady, if_neg notReply, if_pos rfl]
    split
    · obtain ⟨⟨workers, modified⟩, isUpdated⟩ := Option.isSome_iff_exists.mp
        (modifyById_isSome.trans registered)
      rw [updateExpiration, isUpdated]
      rfl
    · rw [isDisconnected]
      rfl
  · refine iff_of_true ?_ (fun isReply => absurd isReply (by decide))
    have notReady : mdpwDisconnect ≠ mdpwReady := by decide
    have notReply : mdpwDisconnect ≠ mdpwReply := by decide
    have notHeartbeat : mdpwDisconnect ≠ mdpwHeartbeat := by decide
    rw [processCommand, if_neg notReady, if_neg notReply, if_neg notHeartbeat, if_pos rfl,
      isErased]
    rfl
  · simp only [handledCommands, List.mem_cons, List.not_mem_nil, or_false, not_or] at unhandled
    obtain ⟨notReady, notReply, notHeartbeat, notDisconnect⟩ := unhandled
    refine iff_of_true ?_ (fun isReply => absurd isReply notReply)
    rw [processCommand, if_neg notReady, if_neg notReply, if_neg notHeartbeat,
      if_neg notDisconnect]
    rfl

/-- What `worker_process` survives: a sender and a command, and as the reply of a
registered worker to a client nothing that cannot be sent. -/
def SurvivesWorker (broker : MessageBroker) (sender : ByteString) (rest : List ByteString) :
    Prop :=
  sender ≠ [] ∧ ∃ command payload, rest = command :: payload ∧
    (cStr command = mdpwReply → broker.workers.exists sender = true →
      (Zmsg.unwrap ⟨payload⟩).1 ≠ [] →
        ∀ part ∈ (Zmsg.unwrap ⟨payload⟩).2.partData, Sendable part)

theorem workerProcess_isSome_iff {clock : WorkerClock} {sender : ByteString}
    {rest : List ByteString} :
    (broker.workerProcess clock sender ⟨rest⟩).isSome ↔ broker.SurvivesWorker sender rest := by
  cases rest with
  | nil => exact iff_of_false nofun (by rintro ⟨_, _, _, ⟨⟩, _⟩)
  | cons part payload =>
      have enough : ¬ (Zmsg.parts ⟨part :: payload⟩ < 1) := by simp [Zmsg.parts]
      rw [workerProcess, if_neg enough, Zmsg.popFront_cons]
      dsimp only
      by_cases named : sender = []
      · subst named
        exact iff_of_false (by simp [workerRequire]) fun survives => survives.1 rfl
      · have required : ∃ result, (broker.record (.command sender (cStr part))).workerRequire
            clock.insert sender = some result := by
          rw [workerRequire, if_neg (by simpa using named)]
          split <;> exact ⟨_, rfl⟩
        obtain ⟨⟨requiredBroker, worker⟩, isRequired⟩ := required
        obtain ⟨_, rfl, workers, rfl, _, stored⟩ := workerRequire_spec isRequired
        have registered : (workers.get worker.identity).isSome := by
          rw [stored, if_pos rfl]
          rfl
        rw [isRequired, SurvivesWorker]
        have ready : (broker.record (.command worker.identity (cStr part))).workers.exists
            worker.identity = broker.workers.exists worker.identity := rfl
        simp only [Option.bind_eq_bind, Option.bind_some, ready]
        rw [@processCommand_isSome_iff { broker.record (.command worker.identity (cStr part))
          with workers := workers } clock worker _ _ _ registered]
        constructor
        · intro sendable
          exact ⟨named, part, payload, rfl, sendable⟩
        · rintro ⟨_, command, others, same, sendable⟩
          obtain ⟨rfl, rfl⟩ := List.cons.inj same
          exact sendable

/-! ## Messages of clients -/

theorem sendLocalToClient_isSome {hdr : Header} {msgs : List ResultMsg}
    {sender client : ByteString} (areSet : ∀ res ∈ msgs, res.result.isSome = true) :
    (broker.sendLocalToClient env ⟨hdr, msgs⟩ sender client).isSome := by
  obtain ⟨body, printed⟩ := Option.isSome_iff_exists.mp
    (@ResMsg.print_isSome env.library (some 2) hdr msgs areSet)
  by_cases addressed : client ≠ [] ∧ sender ≠ []
  · rw [sendLocalToClient_eq addressed printed]
    rfl
  · rw [sendLocalToClient, if_neg addressed]
    rfl

/-- The known actions are executed, and each sets a result. -/
theorem doActs_isSome {sess : Option Session} {acts : Nat → ActInput}
    {known : List (ActionMsg × Nat)} {msgs : List ResultMsg}
    (areSet : ∀ res ∈ msgs, res.result.isSome = true) :
    ∃ acted results, known.foldlM (fun (broker, msgs) (actionMessage, position) =>
        doAct broker env sess (acts position) actionMessage msgs) (broker, msgs) =
      some (acted, results) ∧ ∀ res ∈ results, res.result.isSome = true := by
  induction known generalizing broker msgs with
  | nil => exact ⟨broker, msgs, rfl, areSet⟩
  | cons head tail ih =>
      obtain ⟨sessions, res, acted, isSet⟩ := act_completes env broker.sessions sess
        (acts head.2) .new head.1
      have first : broker.doAct env sess (acts head.2) head.1 msgs =
          some ({ broker with sessions := sessions, replied := broker.replied + 1 },
            msgs ++ [res]) := by
        rw [doAct, acted]
        rfl
      simp only [List.foldlM_cons, first, Option.bind_eq_bind, Option.bind_some]
      apply ih
      intro other member
      rcases List.mem_append.mp member with old | new
      · exact areSet other old
      · exact List.mem_singleton.mp new ▸ isSet

theorem runKnown_isSome {input : ClientInput} {extraction : Extraction} {sender : ByteString}
    {msg : Zmsg} : (broker.runKnown env input extraction sender msg).isSome := by
  rw [runKnown]
  split
  · obtain ⟨acted, results, isActed, areSet⟩ := @doActs_isSome env
      (broker.getSession env input.session extraction.hdr.sessionId).1
      (broker.getSession env input.session extraction.hdr.sessionId).2 input.acts
      extraction.known.zipIdx [] (fun res member => absurd member List.not_mem_nil)
    dsimp only
    rw [isActed]
    exact sendLocalToClient_isSome areSet
  · rfl

/-- The `catch` block ends, and leaves the message without its envelope. -/
theorem rejectMalformed_completes {now : Int} {hdr : Header} {sender : ByteString}
    {msg : Zmsg} :
    ∃ rejected, broker.rejectMalformed env now hdr sender msg = some (rejected, msg.unwrap.2) := by
  obtain ⟨res, isRes⟩ := Option.isSome_iff_exists.mp
    (setResponseForError_isSome { ResultMsg.new with id := text "N/A" }
      (by decide : CdcmError.malformedMessage ≠ .parseFileFailed))
  have areSet : ∀ other ∈ [res], other.result.isSome = true := by
    intro other member
    rw [List.mem_singleton.mp member]
    exact (setResponseForError_spec isRes).2
  obtain ⟨rejected, sent⟩ := Option.isSome_iff_exists.mp
    (@sendLocalToClient_isSome env (broker.getSession env now hdr.sessionId).1 hdr [res] sender
      msg.unwrap.1 areSet)
  refine ⟨rejected, ?_⟩
  rw [rejectMalformed, isRes]
  simp only [Option.bind_eq_bind, Option.bind_some, sent]
  rfl

/-- What the `try` block leaves of the message. -/
theorem endTry_cases (now : Int) (hdr : Header) (sender : ByteString) (msg : Zmsg)
    (fault : Option Fault) :
    if fault = some .undefined then broker.endTry env now hdr sender msg fault = none
    else ∃ ended, broker.endTry env now hdr sender msg fault =
      some (ended, if fault = some .exception then msg.unwrap.2 else msg) := by
  rcases fault with _ | _ | _
  · exact ⟨broker, rfl⟩
  · exact rejectMalformed_completes
  · rfl

/-- The message whose body `client_process` logs behind its `catch` block. -/
def logged (broker : MessageBroker) (env : Environment) (input : ClientInput)
    (sender : ByteString) (msg : Zmsg) : Option Zmsg :=
  let mstr := cStr (msg.body.getD [])
  let (extraction, fault) := extract env.library mstr
  (broker.endTry env input.malformed extraction.hdr sender msg fault).map Prod.snd

/-- What `client_process` survives: a service name and a body, in which the extraction
does not come to the empty object. When it throws, something is left to log. -/
def SurvivesClient (library : Library) (rest : List ByteString) : Prop :=
  2 ≤ rest.length ∧ ¬ MeetsEmpty library (cStr (rest.getLast?.getD [])) ∧
    ((extract library (cStr (rest.getLast?.getD []))).2 = some .exception →
      rest.length = 2 → rest.getLast?.map cStr ≠ some [])

theorem clientProcess_isSome_iff {input : ClientInput} {sender : ByteString}
    {rest : List ByteString} :
    (broker.clientProcess env input sender ⟨rest⟩).isSome ↔
      2 ≤ rest.length ∧ ¬ MeetsEmpty env.library (cStr (rest.getLast?.getD [])) := by
  rw [← extract_undefined_iff, clientProcess]
  split
  next few => exact iff_of_false Bool.false_ne_true fun both => absurd both.1 (Nat.not_le.mpr few)
  next enough =>
    have long : 2 ≤ rest.length := Nat.not_lt.mp enough
    rw [and_iff_right long]
    have body : Zmsg.body ⟨rest⟩ = rest.getLast? := rfl
    simp only [body]
    have cases := @endTry_cases env broker input.malformed
      (extract env.library (cStr (rest.getLast?.getD []))).1.hdr sender ⟨rest⟩
      (extract env.library (cStr (rest.getLast?.getD []))).2
    split at cases
    next undefined =>
      rw [cases]
      exact iff_of_false Bool.false_ne_true fun other => other undefined
    next other =>
      obtain ⟨ended, isEnded⟩ := cases
      rw [isEnded]
      refine iff_of_true ?_ other
      obtain ⟨ran, isRan⟩ := Option.isSome_iff_exists.mp
        (@runKnown_isSome env (ended.touchSession env input.touch
          (extract env.library (cStr (rest.getLast?.getD []))).1.hdr) input
          (extract env.library (cStr (rest.getLast?.getD []))).1 sender
          (if (extract env.library (cStr (rest.getLast?.getD []))).2 = some .exception then
            (Zmsg.unwrap ⟨rest⟩).2 else ⟨rest⟩))
      simp only [Option.bind_eq_bind, Option.bind_some, isRan]
      rfl

/-- Behind the `catch` block, the message is empty exactly when it had two parts of which
the last one is an empty string. -/
theorem logged_iff {input : ClientInput} {sender : ByteString} {rest : List ByteString}
    (long : 2 ≤ rest.length) :
    (∀ msg ∈ broker.logged env input sender ⟨rest⟩, msg.body.isSome = true) ↔
      ((extract env.library (cStr (rest.getLast?.getD []))).2 = some .exception →
        rest.length = 2 → rest.getLast?.map cStr ≠ some []) := by
  have body : Zmsg.body ⟨rest⟩ = rest.getLast? := rfl
  simp only [logged, body]
  have cases := @endTry_cases env broker input.malformed
    (extract env.library (cStr (rest.getLast?.getD []))).1.hdr sender ⟨rest⟩
    (extract env.library (cStr (rest.getLast?.getD []))).2
  match rest, long with
  | service :: second :: more, _ =>
      split at cases
      next undefined =>
        rw [cases, undefined]
        exact iff_of_true nofun nofun
      next =>
        obtain ⟨ended, isEnded⟩ := cases
        rw [isEnded]
        simp only [Option.map_some, Option.mem_def, Option.some.injEq, forall_eq']
        split
        next exception =>
          rw [imp_iff_right exception]
          cases more with
          | nil =>
              by_cases empty : cStr second = []
              · simp [Zmsg.unwrap, Zmsg.address, Zmsg.body, Zmsg.popFront, empty]
              · simp [Zmsg.unwrap, Zmsg.address, Zmsg.body, empty]
          | cons third others =>
              refine iff_of_true ?_ (by simp)
              by_cases empty : cStr second = []
              · simp [Zmsg.unwrap, Zmsg.address, Zmsg.body, Zmsg.popFront, empty]
              · simp [Zmsg.unwrap, Zmsg.address, Zmsg.body, empty]
        next other =>
          refine iff_of_true ?_ fun exception => absurd exception other
          simp [Zmsg.body]

/-! ## Every message -/

/-- `handle_message` survives frames: the trace has a part to show, and behind the
expected header the handler survives the rest. -/
def Passes (frames : List ByteString) (origin : ByteString)
    (survives : ByteString → List ByteString → Prop) : Prop :=
  match (Zmsg.recv frames).partData with
  | [] => True
  | sender :: _ :: header :: rest => cStr header = origin → survives (cStr sender) rest
  | _ => False

theorem handleMessage_isSome_iff {frames : List ByteString} {origin : ByteString}
    {process : ByteString → Zmsg → Handled} :
    (broker.handleMessage frames origin process).isSome ↔
      Passes frames origin fun sender rest => (process sender ⟨rest⟩).isSome = true := by
  rw [handleMessage, Passes]
  generalize Zmsg.recv frames = msg
  obtain ⟨parts⟩ := msg
  rcases parts with _ | ⟨sender, _ | ⟨delimiter, _ | ⟨header, rest⟩⟩⟩
  case nil => exact iff_of_true rfl trivial
  case cons.nil => exact iff_of_false Bool.false_ne_true id
  case cons.cons.nil => exact iff_of_false Bool.false_ne_true id
  case cons.cons.cons =>
      change (if cStr header = origin then process (cStr sender) ⟨rest⟩
        else some (broker, none)).isSome ↔ _
      split
      next expected => exact (imp_iff_right expected).symm
      next other => exact iff_of_true rfl fun expected => absurd expected other

variable (env) in
/-- A message that the broker survives. -/
def Survives (broker : MessageBroker) : BrokerEvent → Prop
  | .worker frames _ => Passes frames mdpwWorker broker.SurvivesWorker
  | .client frames _ => Passes frames mdpcClient fun _ => SurvivesClient env.library
  | .timer _ | .segment _ => True

variable (env) in
/-- A client's message that is logged has a body. -/
def LogsBody (broker : MessageBroker) : BrokerEvent → Prop
  | .client frames input => Passes frames mdpcClient fun sender rest =>
      ∀ msg ∈ broker.logged env input sender ⟨rest⟩, msg.body.isSome = true
  | .worker .. | .timer _ | .segment _ => True

variable (env) in
/-- Handling an event completes, and formats no null pointer. -/
def Completes (broker : MessageBroker) (event : BrokerEvent) : Prop :=
  (broker.step env event).isSome = true ∧ broker.LogsBody env event

/-- No part of a queued request has a NUL byte. -/
def QueuesText (broker : MessageBroker) : Prop :=
  ∀ queued ∈ broker.requests, ∀ part ∈ queued.1.partData, 0 ∉ part

/-- A handler queues nothing itself, and calls the dispatch with text. -/
theorem QueuesText.handle {event : BrokerEvent} {call : Option DispatchCall}
    (text : broker.QueuesText) (handled : broker.handle env event = some (next, call)) :
    next.QueuesText ∧ ∀ made ∈ call, ∀ msg ∈ made.msg, ∀ part ∈ msg.partData, 0 ∉ part := by
  cases event with
  | worker frames clock =>
      cases parsed : workerCommand frames with
      | none =>
          obtain ⟨rfl, rfl⟩ := handle_worker_ignored parsed handled
          exact ⟨text, nofun⟩
      | some read =>
          have processed := handle_worker_command parsed handled
          refine ⟨?_, ?_⟩
          · intro queued member
            rw [processed.requests] at member
            exact text queued member
          · intro made isMade
            rw [processed.call_eq] at isMade
            split at isMade
            · obtain rfl := Option.some.inj isMade
              nofun
            · contradiction
  | client frames input =>
      have processed := handle_client handled
      refine ⟨?_, ?_⟩
      · intro queued member
        rw [processed.requests] at member
        exact text queued member
      · intro made isMade msg isMsg part member
        obtain ⟨body, shape⟩ := processed.shape made isMade
        obtain rfl := Option.some.inj (isMsg.symm.trans shape)
        simp only [List.mem_cons, List.not_mem_nil, or_false] at member
        rcases member with rfl | rfl | rfl
        · exact zero_not_mem_cStr _
        · exact List.not_mem_nil
        · exact zero_not_mem_cStr _
  | timer now =>
      obtain ⟨rfl, _, rfl, _⟩ := handle_timer handled
      exact ⟨text, nofun⟩
  | segment sessions =>
      obtain ⟨rfl, rfl⟩ := Prod.mk.inj (Option.some.inj handled)
      exact ⟨text, nofun⟩

theorem QueuesText.enqueue {call : DispatchCall} (text : broker.QueuesText)
    (callText : ∀ msg ∈ call.msg, ∀ part ∈ msg.partData, 0 ∉ part) :
    (broker.enqueue call).QueuesText := by
  intro queued member
  rw [MessageBroker.enqueue] at member
  split at member
  next msg isMsg =>
    rcases List.mem_append.mp member with old | new
    · exact text queued old
    · obtain rfl := List.mem_singleton.mp new
      exact callText msg isMsg
  next => exact text queued member

theorem QueuesText.step {event : BrokerEvent} (text : broker.QueuesText)
    (stepped : broker.step env event = some next) : next.QueuesText := by
  obtain ⟨handled, call, isHandled, rest⟩ := step_cases stepped
  obtain ⟨handledText, callText⟩ := text.handle isHandled
  rcases rest with ⟨_, rfl⟩ | ⟨made, isMade, dispatched⟩
  · exact handledText
  · have queued := handledText.enqueue (callText made isMade)
    have result := serviceDispatch_invariant
      (fun pending state => state.requests = pending ∧ state.QueuesText)
      (fun front rest state turned worker ⟨isPending, holds⟩ effect => by
        refine ⟨effect.requests, fun other member => holds other ?_⟩
        rw [isPending]
        rw [effect.requests] at member
        exact List.mem_cons_of_mem _ member)
      (fun _ => ⟨rfl, queued⟩) dispatched
    rcases result with ⟨rfl, _⟩ | ⟨_, holds⟩
    · exact queued
    · exact holds

/-- With text in the queue, only its handler can keep an event from completing. -/
theorem step_isSome_iff {event : BrokerEvent} (text : broker.QueuesText) :
    (broker.step env event).isSome ↔ (broker.handle env event).isSome := by
  constructor
  · intro completes
    obtain ⟨next, stepped⟩ := Option.isSome_iff_exists.mp completes
    obtain ⟨handled, call, isHandled, _⟩ := step_cases stepped
    rw [isHandled]
    rfl
  · intro completes
    obtain ⟨⟨handled, call⟩, isHandled⟩ := Option.isSome_iff_exists.mp completes
    obtain ⟨handledText, callText⟩ := text.handle isHandled
    rw [MessageBroker.step, isHandled]
    cases call with
    | none => rfl
    | some made => exact serviceDispatch_isSome (handledText.enqueue (callText made rfl))

/-- The timer always completes. -/
theorem onTimer_isSome {now : Int} : (broker.onTimer now).isSome := by
  have beats : ∀ (idle : List Worker) (start : MessageBroker),
      (idle.foldlM (fun broker worker => workerSend broker worker mdpwHeartbeat [] none)
        start).isSome := by
    intro idle
    induction idle with
    | nil => exact fun start => rfl
    | cons worker rest ih =>
        intro start
        obtain ⟨told, isTold⟩ := Option.isSome_iff_exists.mp
          (@workerSend_isSome start worker mdpwHeartbeat none
            fun part member => absurd member List.not_mem_nil)
        rw [List.foldlM_cons, isTold]
        exact ih told
  rw [onTimer, purgeWorkers_eq]
  exact beats _ _

/-- Crash freedom: in every reachable state, an event completes exactly when its message
is one that the broker survives. -/
theorem completes_iff_survives {heartbeatExpiry : Nat} {sessions : SharedMemSessionsCache}
    {events : List BrokerEvent}
    (run : Run (step env) Unguarded (new heartbeatExpiry sessions) events broker)
    (event : BrokerEvent) : broker.Completes env event ↔ broker.Survives env event := by
  have text : broker.QueuesText := run.invariant QueuesText
    (fun queued member => absurd member List.not_mem_nil)
    fun state event next holds _ stepped => holds.step stepped
  rw [Completes, step_isSome_iff text]
  cases event with
  | worker frames clock =>
      rw [LogsBody, and_iff_left trivial, Survives, handle, handleMessage_isSome_iff]
      simp only [workerProcess_isSome_iff]
  | client frames input =>
      rw [LogsBody, Survives, handle, handleMessage_isSome_iff]
      simp only [clientProcess_isSome_iff, Passes]
      generalize (Zmsg.recv frames).partData = parts
      rcases parts with _ | ⟨sender, _ | ⟨delimiter, _ | ⟨header, rest⟩⟩⟩
      case nil => exact iff_of_true ⟨trivial, trivial⟩ trivial
      case cons.nil => exact and_iff_left_of_imp id
      case cons.cons.nil => exact and_iff_left_of_imp id
      case cons.cons.cons =>
          dsimp only
          rw [← imp_and]
          apply imp_congr_right
          intro _
          rw [SurvivesClient, and_assoc]
          apply and_congr_right
          intro long
          rw [logged_iff long]
  | timer now =>
      rw [LogsBody, and_iff_left trivial, Survives, handle]
      refine iff_of_true ?_ trivial
      obtain ⟨timed, isTimed⟩ := Option.isSome_iff_exists.mp (@onTimer_isSome broker now)
      rw [isTimed]
      rfl
  | segment sessions => exact iff_of_true ⟨rfl, trivial⟩ trivial

/-- The broker survives the request of a client, with a worker registered. -/
theorem completes_iff_survives_request :
    ∃ broker, Run (step (sampleEnv [sampleBody [pingAction "1"]])) Unguarded sampleBroker
        [workerSends "w1" mdpwReady [] 0] broker ∧
      (broker.step (sampleEnv [sampleBody [pingAction "1"]])
        (clientSends "c1" (sampleBody [pingAction "1"]) 1)).isSome = true ∧
      (broker.Completes (sampleEnv [sampleBody [pingAction "1"]])
          (clientSends "c1" (sampleBody [pingAction "1"]) 1) ↔
        broker.Survives (sampleEnv [sampleBody [pingAction "1"]])
          (clientSends "c1" (sampleBody [pingAction "1"]) 1)) := by
  obtain ⟨broker, run, completes⟩ := Run.exists_of_exec
    (fun broker : MessageBroker => (broker.step (sampleEnv [sampleBody [pingAction "1"]])
      (clientSends "c1" (sampleBody [pingAction "1"]) 1)).isSome)
    (by decide +kernel : (exec (step (sampleEnv [sampleBody [pingAction "1"]])) Unguarded
      sampleBroker [workerSends "w1" mdpwReady [] 0]).any _ = true)
  exact ⟨broker, run, completes, completes_iff_survives run _⟩

/-! ### Fatal messages -/

/-- Messages of a peer: an action that is the empty object, two frames, nothing behind
the header of a client or of a worker, and a worker without a name. -/
def fatalMessages : List BrokerEvent :=
  [clientSends "c1" (sampleBody [.object []]) 0,
    .client [text "c1", []] ⟨0, 0, 0, fun _ => ⟨0, 1, .succeeds⟩, 0⟩,
    .client [text "c1", [], mdpcClient] ⟨0, 0, 0, fun _ => ⟨0, 1, .succeeds⟩, 0⟩,
    .worker [text "w1", [], mdpwWorker] ⟨0, 0, 0⟩,
    .worker [[], [], mdpwWorker, mdpwReady] ⟨0, 0, 0⟩]

/-- Each of them stops a new broker. -/
theorem fatalMessages_abort :
    ∃ broker, Run (step (sampleEnv [sampleBody [.object []]])) Unguarded sampleBroker []
        broker ∧
      ∀ event ∈ fatalMessages, ¬ broker.Completes (sampleEnv [sampleBody [.object []]]) event := by
  have aborts : ∀ event ∈ fatalMessages,
      (sampleBroker.step (sampleEnv [sampleBody [.object []]]) event).isSome = false := by
    decide +kernel
  refine ⟨sampleBroker, .nil, fun event member completes => ?_⟩
  rw [Completes, aborts event member] at completes
  exact Bool.false_ne_true completes.1

end MessageBroker

end Cdcm.Frontend
