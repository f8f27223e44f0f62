import Cdcm.Frontend.BrokerEffects
import Cdcm.Lib.Machine
import Cdcm.Protocol.JsonText

/-!
# Runs of the broker

What one event does, put together from its handler and the dispatch behind it,
and the rule by which an invariant of all runs follows: handlers preserve it, and
so does every turn of the dispatch loop.
-/

namespace Cdcm.Frontend

open Json Protocol SessionsCache Zmq WorkerContainer Machine

/-- What `worker_process` reads: sender and command, and the client address that a
reply is unwrapped to. -/
structure WorkerCommand where
  sender : ByteString
  command : ByteString
  client : ByteString
  deriving DecidableEq, Repr

/-- What `worker_process` reads of the frames that reach it. -/
def workerCommand (frames : List ByteString) : Option WorkerCommand :=
  match (Zmsg.recv frames).partData with
  | sender :: _ :: header :: part :: rest =>
      if cStr header = mdpwWorker then
        some ⟨cStr sender, cStr part, (Zmsg.unwrap ⟨rest⟩).1⟩
      else none
  | _ => none

namespace MessageBroker

variable {env : Environment} {broker next : MessageBroker}

/-! ## Handlers -/

/-- `handle_message` ignores the frames or passes them to the handler. -/
theorem handleMessage_cases {frames : List ByteString} {origin : ByteString}
    {process : ByteString → Zmsg → Handled} {call : Option DispatchCall}
    (handled : broker.handleMessage frames origin process = some (next, call)) :
    (∃ sender delimiter header rest,
        (Zmsg.recv frames).partData = sender :: delimiter :: header :: rest ∧
          cStr header = origin ∧ process (cStr sender) ⟨rest⟩ = some (next, call)) ∨
      (∀ sender delimiter header rest,
          (Zmsg.recv frames).partData = sender :: delimiter :: header :: rest →
            cStr header ≠ origin) ∧ next = broker ∧ call = none := by
  have ignored : some (broker, (none : Option DispatchCall)) = some (next, call) →
      next = broker ∧ call = none := by
    rintro ⟨⟩
    exact ⟨rfl, rfl⟩
  rw [handleMessage] at handled
  generalize Zmsg.recv frames = msg at handled ⊢
  obtain ⟨parts⟩ := msg
  match parts with
  | [] => exact .inr ⟨nofun, ignored handled⟩
  | [_] => simp [Zmsg.parts, Zmsg.popFront] at handled
  | [_, _] => simp [Zmsg.parts, Zmsg.popFront] at handled
  | sender :: delimiter :: header :: rest =>
      change (if cStr header = origin then process (cStr sender) ⟨rest⟩
        else some (broker, none)) = some (next, call) at handled
      split at handled
      next expected =>
        exact .inl ⟨sender, delimiter, header, rest, rfl, expected, handled⟩
      next unexpected =>
        refine .inr ⟨?_, ignored handled⟩
        rintro _ _ _ _ ⟨⟩
        exact unexpected

/-- A message with the expected header is passed to the handler. -/
theorem handleMessage_eq {frames rest : List ByteString} {sender delimiter header : ByteString}
    {process : ByteString → Zmsg → Handled}
    (parts : (Zmsg.recv frames).partData = sender :: delimiter :: header :: rest) :
    broker.handleMessage frames (cStr header) process = process (cStr sender) ⟨rest⟩ := by
  have isMsg : Zmsg.recv frames = ⟨sender :: delimiter :: header :: rest⟩ := congrArg Zmsg.mk parts
  rw [handleMessage, isMsg]
  exact if_pos rfl

/-- A registered worker's command goes to its branch. -/
theorem workerProcess_registered {clock : WorkerClock} {sender part : ByteString}
    {rest : List ByteString} {worker : Worker} (named : sender ≠ [])
    (registered : broker.workers.get sender = some worker) :
    broker.workerProcess clock sender ⟨part :: rest⟩ =
      (broker.record (.command sender (cStr part))).processCommand clock sender true worker
        (cStr part) ⟨rest⟩ := by
  have ready : (broker.record (.command sender (cStr part))).workers.exists sender = true :=
    exists_of_get registered
  have required : (broker.record (.command sender (cStr part))).workerRequire clock.insert
      sender = some (broker.record (.command sender (cStr part)), worker) := by
    have same : (broker.record (.command sender (cStr part))).workers.get sender =
        some worker := registered
    rw [workerRequire, if_neg (by simpa using named), same]
  rw [workerProcess]
  simp only [Zmsg.parts, List.length_cons, Nat.not_lt.mpr (Nat.le_add_left 1 rest.length),
    if_false, Zmsg.popFront_cons, ready, required]
  rfl

/-- Frames with a command of a worker are processed. -/
theorem handle_worker_command {frames : List ByteString} {clock : WorkerClock}
    {call : Option DispatchCall} {sender command client : ByteString}
    (parsed : workerCommand frames = some ⟨sender, command, client⟩)
    (handled : broker.handle env (.worker frames clock) = some (next, call)) :
    WorkerProcessed broker clock sender command client next call := by
  rw [workerCommand] at parsed
  rcases handleMessage_cases handled with
    ⟨sender', delimiter, header, rest, parts, isWorker, processed⟩ | ⟨foreign, _⟩
  · rw [parts] at parsed
    cases rest with
    | nil => contradiction
    | cons part rest =>
        simp only [isWorker, if_true, Option.some.injEq, WorkerCommand.mk.injEq] at parsed
        obtain ⟨rfl, rfl, rfl⟩ := parsed
        exact workerProcess_spec processed
  · split at parsed
    next sender' delimiter header part rest parts =>
      split at parsed
      next isWorker => exact absurd isWorker (foreign _ _ _ _ parts)
      next => contradiction
    next => contradiction

/-- Frames without one are ignored. -/
theorem handle_worker_ignored {frames : List ByteString} {clock : WorkerClock}
    {call : Option DispatchCall} (parsed : workerCommand frames = none)
    (handled : broker.handle env (.worker frames clock) = some (next, call)) :
    next = broker ∧ call = none := by
  rw [workerCommand] at parsed
  rcases handleMessage_cases handled with
    ⟨sender, delimiter, header, rest, parts, isWorker, processed⟩ | ⟨_, ignored⟩
  · rw [parts] at parsed
    cases rest with
    | nil => exact absurd processed (by simp [workerProcess, Zmsg.parts])
    | cons part rest => simp [isWorker] at parsed
  · exact ignored

/-- The address under which the broker knows the sender of frames. -/
def senderAddress (frames : List ByteString) : ByteString :=
  cStr (recvPart (frames.headD []))

theorem handle_client {frames : List ByteString} {input : ClientInput}
    {call : Option DispatchCall}
    (handled : broker.handle env (.client frames input) = some (next, call)) :
    ClientProcessed broker (senderAddress frames) next call := by
  rcases handleMessage_cases handled with
    ⟨sender, _, _, _, parts, _, processed⟩ | ⟨_, rfl, rfl⟩
  · have isSender : senderAddress frames = cStr sender := by
      cases frames with
      | nil => contradiction
      | cons identity rest => rw [← (List.cons.inj parts).1]; rfl
    exact isSender ▸ clientProcess_spec processed
  · exact ⟨rfl, rfl, nofun, [], by simp, by simp⟩

/-- What the broker tells some workers, one after the other, is noted and changes nothing. -/
theorem foldlM_workerSend {command : ByteString} {told : List Worker}
    (sends : told.foldlM (fun broker worker => workerSend broker worker command [] none) broker =
      some next) :
    ∃ sent : List Traffic, next = { broker with journal := broker.journal ++ sent } ∧
      ∀ entry ∈ sent, ∃ worker workers,
        entry = .sent .internal (workerMessage worker command [] none) workers := by
  induction told generalizing broker with
  | nil =>
      obtain rfl := Option.some.inj sends
      exact ⟨[], by simp, by simp⟩
  | cons head tail ih =>
      simp only [List.foldlM_cons, Option.bind_eq_bind, Option.bind_eq_some_iff] at sends
      obtain ⟨first, sent, rest⟩ := sends
      obtain ⟨rfl, _⟩ := sendOn_spec sent
      obtain ⟨more, rfl, are⟩ := ih rest
      refine ⟨_ :: more, by rw [record, List.append_assoc]; rfl, ?_⟩
      intro entry member
      cases List.mem_cons.mp member with
      | inl isFirst => exact ⟨_, _, isFirst⟩
      | inr later => exact are entry later

/-- The timer purges and sends heartbeats. -/
theorem handle_timer {now : Int} {call : Option DispatchCall}
    (handled : broker.handle env (.timer now) = some (next, call)) :
    call = none ∧ ∃ sent : List Traffic, next = { broker with
        workers := broker.workers.purged now
        journal := broker.journal ++ sent } ∧ ∀ entry ∈ sent, entry.Other := by
  simp only [handle, onTimer, purgeWorkers_eq, Option.bind_eq_bind, Option.bind_some,
    Option.bind_eq_some_iff, Option.pure_def, Option.some.injEq, Prod.mk.injEq] at handled
  obtain ⟨_, beaten, rfl, rfl⟩ := handled
  obtain ⟨sent, rfl, are⟩ := foldlM_workerSend beaten
  refine ⟨rfl, sent, rfl, fun entry member => ?_⟩
  obtain ⟨worker, workers, rfl⟩ := are entry member
  exact request_workerMessage_of_ne (by decide) workers

/-! ## Dispatch -/

/-- The broker in front of the dispatch loop: the request is queued and expired
workers are purged. -/
def purgedFor (broker : MessageBroker) (now : Int) (call : DispatchCall) :
    MessageBroker :=
  { broker.enqueue call with workers := broker.workers.purged now }

@[simp] theorem journal_purgedFor (now : Int) (call : DispatchCall) :
    (broker.purgedFor now call).journal = broker.journal := by
  rw [purgedFor, enqueue]
  split <;> rfl

theorem serviceDispatch_eq (now : Int) (call : DispatchCall) :
    broker.serviceDispatch now call =
      dispatchLoop (broker.workers.purged now).idleWorkers call.id
        (broker.enqueue call).requests (broker.purgedFor now call) := by
  have sameWorkers : (broker.enqueue call).workers = broker.workers := by
    rw [enqueue]
    split <;> rfl
  rw [serviceDispatch, purgeWorkers_eq, sameWorkers]
  rfl

/-- Some worker is idle when the dispatch loop is reached. -/
def anyIdle (broker : MessageBroker) (now : Int) : Bool :=
  !WorkerIterator.same (broker.workers.purged now).idleWorkers.1
    (broker.workers.purged now).idleWorkers.2

/-- What every turn of the loop preserves, from the queued requests on, holds when
`service_dispatch` returns: with some worker idle the queue is worked off, and
without one nothing happens. -/
theorem serviceDispatch_invariant {now : Int} {call : DispatchCall}
    (inv : List (Zmsg × ByteString) → MessageBroker → Prop)
    (turn : ∀ front rest broker next worker, inv (front :: rest) broker →
      DispatchTurned broker call.id front rest worker next → inv rest next)
    (holds : broker.anyIdle now = true →
      inv (broker.enqueue call).requests (broker.purgedFor now call))
    (dispatched : broker.serviceDispatch now call = some next) :
    next = broker.purgedFor now call ∧
        (∀ identity worker, next.workers.get identity = some worker →
          worker.idle = false) ∨
      inv [] next := by
  rw [serviceDispatch_eq] at dispatched
  have result := dispatchLoop_invariant inv turn
    (fun some => holds (by rw [anyIdle, some]; rfl)) dispatched
  split at result
  next none => exact .inl ⟨result, result ▸ idleWorkers_same.mp none⟩
  next => exact .inr result

/-- A dispatch sends requests to workers and nothing else. -/
theorem dispatch_journal {now : Int} {call : DispatchCall}
    (dispatched : broker.serviceDispatch now call = some next) :
    ∃ requests, next.journal = broker.journal ++ requests ∧ ∀ entry ∈ requests,
      ∃ worker payload workers, entry =
        .sent .internal (workerMessage worker mdpwRequest [] (some payload)) workers := by
  have result := serviceDispatch_invariant
    (fun _ state => ∃ requests, state.journal = broker.journal ++ requests ∧
      ∀ entry ∈ requests, ∃ worker payload workers, entry =
        .sent .internal (workerMessage worker mdpwRequest [] (some payload)) workers)
    (fun front rest state turned worker ⟨requests, journal, areRequests⟩ effect => by
      refine ⟨requests ++ [_], by rw [effect.journal, journal, List.append_assoc], ?_⟩
      intro entry member
      rcases List.mem_append.mp member with old | new
      · exact areRequests entry old
      · exact ⟨worker, front.1, state.workers, List.mem_singleton.mp new⟩)
    (fun _ => ⟨[], by rw [journal_purgedFor, List.append_nil], nofun⟩) dispatched
  rcases result with ⟨rfl, _⟩ | holds
  · exact ⟨[], by rw [journal_purgedFor, List.append_nil], nofun⟩
  · exact holds

/-- An event is its handler and the dispatch behind it, if any. -/
theorem step_cases {event : BrokerEvent} (stepped : broker.step env event = some next) :
    ∃ handled call, broker.handle env event = some (handled, call) ∧
      (call = none ∧ next = handled ∨
        ∃ made, call = some made ∧
          handled.serviceDispatch (purgeTime event) made = some next) := by
  simp only [step, Option.bind_eq_bind, Option.bind_eq_some_iff, Prod.exists] at stepped
  obtain ⟨handled, call, isHandled, rest⟩ := stepped
  refine ⟨handled, call, isHandled, ?_⟩
  cases call with
  | none => exact .inl ⟨rfl, (Option.some.inj rest).symm⟩
  | some made => exact .inr ⟨made, rfl, rest⟩

/-- Without a dispatch behind it, an event is its handler. -/
theorem step_eq_handle {event : BrokerEvent} {handled : MessageBroker}
    (stepped : broker.step env event = some next)
    (isHandled : broker.handle env event = some (handled, none)) : next = handled := by
  simp only [step, isHandled, Option.bind_eq_bind, Option.bind_some] at stepped
  exact (Option.some.inj stepped).symm

end MessageBroker

/-! ## What workers are told -/

/-- A message to a worker, if it is one, carries no request. -/
def Traffic.Tells (entry : Traffic) : Prop :=
  ∀ msg workers, entry = .sent .internal msg workers →
    ∃ worker, ∃ command ∈ [mdpwHeartbeat, mdpwDisconnect],
      msg = MessageBroker.workerMessage worker command [] none

namespace MessageBroker

variable {env : Environment} {broker next : MessageBroker}

/-- A step that tells workers to stay or to go at most. -/
def TellsOnly (broker next : MessageBroker) : Prop :=
  ∃ sent, next.journal = broker.journal ++ sent ∧ ∀ entry ∈ sent, entry.Tells

theorem TellsOnly.of_journal (journal : next.journal = broker.journal) :
    TellsOnly broker next :=
  ⟨[], by rw [journal, List.append_nil], nofun⟩

theorem TellsOnly.trans {last : MessageBroker} (first : TellsOnly broker next)
    (second : TellsOnly next last) : TellsOnly broker last := by
  obtain ⟨sent, journal, tells⟩ := first
  obtain ⟨more, journalMore, tellsMore⟩ := second
  refine ⟨sent ++ more, by rw [journalMore, journal, List.append_assoc], ?_⟩
  intro entry member
  cases List.mem_append.mp member with
  | inl old => exact tells entry old
  | inr new => exact tellsMore entry new

theorem workerSend_tells {worker : Worker} {command : ByteString}
    (isCommand : command ∈ [mdpwHeartbeat, mdpwDisconnect])
    (sent : broker.workerSend worker command [] none = some next) : TellsOnly broker next := by
  obtain ⟨rfl, _⟩ := sendOn_spec sent
  refine ⟨[_], rfl, ?_⟩
  intro entry member msg workers isSent
  rw [List.mem_singleton.mp member] at isSent
  obtain ⟨_, rfl, _⟩ := Traffic.sent.inj isSent
  exact ⟨worker, command, isCommand, rfl⟩

theorem workerDelete_tells {worker : Worker} {sendDisconnect : Bool}
    (deleted : broker.workerDelete worker sendDisconnect = some next) :
    TellsOnly broker next := by
  cases sendDisconnect with
  | false =>
      obtain rfl := Option.some.inj deleted
      exact .of_journal rfl
  | true =>
      simp only [workerDelete, if_true, Option.bind_eq_bind, Option.bind_eq_some_iff,
        Option.pure_def, Option.some.injEq] at deleted
      obtain ⟨told, sent, rfl⟩ := deleted
      have isCommand : mdpwDisconnect ∈ [mdpwHeartbeat, mdpwDisconnect] := by simp
      have tells := workerSend_tells isCommand sent
      exact tells

theorem processCommand_tells {clock : WorkerClock} {sender command : ByteString} {ready : Bool}
    {worker : Worker} {msg : Zmsg} {call : Option DispatchCall}
    (processed : broker.processCommand clock sender ready worker command msg =
      some (next, call)) : TellsOnly broker next := by
  have deletes : ∀ {sendDisconnect : Bool},
      (do return (← broker.workerDelete worker sendDisconnect, none)) = some (next, call) →
        TellsOnly broker next := by
    intro sendDisconnect deleted
    simp only [Option.bind_eq_bind, Option.bind_eq_some_iff, Option.pure_def,
      Option.some.injEq, Prod.mk.injEq] at deleted
    obtain ⟨_, isDeleted, rfl, _⟩ := deleted
    exact workerDelete_tells isDeleted
  rw [processCommand] at processed
  split at processed
  next =>
    split at processed
    next => exact deletes processed
    next =>
      obtain ⟨_, workers, rfl, _⟩ := workerWaiting_spec processed
      exact .of_journal rfl
  split at processed
  next =>
    split at processed
    next =>
      refine ⟨_, (forwardReply_spec processed).2.2.2.2.2, ?_⟩
      intro entry member msg workers isSent
      split at member
      next => contradiction
      next =>
        rw [isSent] at member
        exact absurd (List.mem_singleton.mp member) (by simp)
    next => exact deletes processed
  split at processed
  next =>
    split at processed
    next =>
      simp only [Option.bind_eq_bind, Option.bind_eq_some_iff, Prod.exists, Option.pure_def,
        Option.some.injEq, Prod.mk.injEq] at processed
      obtain ⟨workers, _, _, rfl, _⟩ := processed
      exact .of_journal rfl
    next => exact deletes processed
  split at processed
  next => exact deletes processed
  next =>
    obtain ⟨rfl, _⟩ := Prod.mk.inj (Option.some.inj processed)
    exact .of_journal rfl

theorem workerProcess_tells {clock : WorkerClock} {sender : ByteString} {msg : Zmsg}
    {call : Option DispatchCall}
    (processed : broker.workerProcess clock sender msg = some (next, call)) :
    TellsOnly broker next := by
  simp only [workerProcess] at processed
  split at processed
  next => contradiction
  next =>
    simp only [Option.bind_eq_bind, Option.bind_eq_some_iff, Prod.exists] at processed
    obtain ⟨required, worker, isRequired, processed⟩ := processed
    obtain ⟨_, _, workers, rfl, _⟩ := workerRequire_spec isRequired
    have recorded : TellsOnly broker { broker.record (.command sender (cStr msg.popFront.1)) with
        workers := workers } := ⟨[_], rfl, by simp [Traffic.Tells]⟩
    exact recorded.trans (processCommand_tells processed)

/-- Handlers send no request: that is left to the dispatch behind them. -/
theorem handle_tells {event : BrokerEvent} {call : Option DispatchCall}
    (handled : broker.handle env event = some (next, call)) : TellsOnly broker next := by
  cases event with
  | worker frames clock =>
      cases handleMessage_cases handled with
      | inl process =>
          obtain ⟨sender, _, _, rest, _, _, processed⟩ := process
          exact workerProcess_tells processed
      | inr ignored =>
          obtain ⟨_, rfl, _⟩ := ignored
          exact .of_journal rfl
  | client frames input =>
      obtain ⟨sent, journal, replies⟩ := (handle_client handled).journal
      refine ⟨_, journal.trans (List.append_assoc _ _ _), ?_⟩
      intro entry member msg workers isSent
      cases List.mem_append.mp member with
      | inl reply =>
          obtain ⟨_, _, _, isReply⟩ := replies entry reply
          rw [isSent] at isReply
          exact absurd isReply (by simp)
      | inr handed =>
          obtain ⟨_, _, isHanded⟩ := List.mem_map.mp handed
          rw [isSent] at isHanded
          contradiction
  | timer now =>
      simp only [handle, onTimer, purgeWorkers_eq, Option.bind_eq_bind, Option.bind_some,
        Option.bind_eq_some_iff, Option.pure_def, Option.some.injEq, Prod.mk.injEq] at handled
      obtain ⟨_, beaten, rfl, _⟩ := handled
      have isCommand : mdpwHeartbeat ∈ [mdpwHeartbeat, mdpwDisconnect] := by simp
      obtain ⟨sent, rfl, are⟩ := foldlM_workerSend beaten
      refine ⟨sent, rfl, fun entry member msg workers isSent => ?_⟩
      obtain ⟨worker, _, isBeat⟩ := are entry member
      obtain ⟨_, rfl, _⟩ := Traffic.sent.inj (isSent.symm.trans isBeat)
      exact ⟨worker, mdpwHeartbeat, isCommand, rfl⟩
  | segment sessions =>
      obtain ⟨rfl, _⟩ := Prod.mk.inj (Option.some.inj handled)
      exact .of_journal rfl

end MessageBroker

/-! ## Sample events -/

/-- A broker process that can read the given bodies. -/
def sampleEnv (bodies : List Value) : Environment where
  library := .ofTexts (bodies.map fun body => (body.print none 0, body))
  uuidText := .canonical
  cdcmVersion := text "1.0"

/-- A worker sends a command, followed by the given frames. -/
def workerSends (worker : String) (command : ByteString) (rest : List ByteString)
    (now : Int) : BrokerEvent :=
  .worker (text worker :: [] :: mdpwWorker :: command :: rest) ⟨now, now, now⟩

/-- A client sends a body to the service `cdcm`. -/
def clientSends (client : String) (body : Value) (now : Int) : BrokerEvent :=
  .client [text client, [], mdpcClient, text "cdcm", body.print none 0]
    ⟨now, now, now, fun _ => ⟨now, 1, .succeeds⟩, now⟩

/-- A broker with the expiry and the idle time of the settings file. -/
def sampleBroker : MessageBroker := .new 3000 (.empty 21600)

end Cdcm.Frontend
