import Cdcm.Frontend.LocalResults
import Cdcm.System.Delivery

/-!
# What clients ask workers for

The broker takes the actions out of a client's message that it executes itself, and writes
the others into a message of its own, which a worker reads.  What the workers are asked for
is what the clients have sent: the same actions in their order, under the same header.
-/

namespace Cdcm.Frontend

open Json Protocol

/-- The elements of `msgs` that are left to workers, up to a fault. -/
def remoteActions : List Value → List Value
  | [] => []
  | actMsg :: rest =>
      match readAction actMsg with
      | .ok (.inl _) => remoteActions rest
      | .ok (.inr _) => actMsg :: remoteActions rest
      | .error _ => []

/-- An action that is left to workers is left as it is. -/
theorem readAction_remote {actMsg : Value} {actionObj : Object}
    (read : readAction actMsg = .ok (.inr actionObj)) : actMsg = .object actionObj := by
  simp only [readAction, bind_eq_ok, Value.getObject_eq_ok] at read
  obtain ⟨members, rfl, _, _, found⟩ := read
  split at found
  next =>
    obtain ⟨_, _, made⟩ := bind_eq_ok.mp found
    exact absurd (Except.ok.inj made) (by simp)
  next =>
    rw [Sum.inr.inj (Except.ok.inj found)]

theorem unknown_of_extractActions (actions : List Value) (extraction : Extraction) :
    (extractActions actions extraction).1.hdr = extraction.hdr ∧
      (extractActions actions extraction).1.unknown.map Value.object =
        extraction.unknown.map Value.object ++ remoteActions actions := by
  induction actions generalizing extraction with
  | nil => exact ⟨rfl, (List.append_nil _).symm⟩
  | cons actMsg rest ih =>
      rw [extractActions, remoteActions]
      cases read : readAction actMsg with
      | error fault => exact ⟨rfl, (List.append_nil _).symm⟩
      | ok action =>
          obtain ⟨hdr, unknown⟩ := ih (extraction.push action)
          cases action with
          | inl message => exact ⟨hdr, unknown⟩
          | inr actionObj =>
              refine ⟨hdr, unknown.trans ?_⟩
              rw [Extraction.push, List.map_append, List.append_assoc, readAction_remote read]
              rfl

/-- The header that `client_process` has at the end of its `try` block. -/
def messageHeader (library : Library) (mstr : ByteString) : Header :=
  match extractHeader library mstr with
  | .ok (_, hdr) => hdr
  | .error _ => .new

/-- What is extracted for workers are the remote actions of the message. -/
theorem unknown_of_extract (library : Library) (mstr : ByteString) :
    (extract library mstr).1.hdr = messageHeader library mstr ∧
      (extract library mstr).1.unknown.map Value.object =
        remoteActions ((bodyActions library mstr).getD []) := by
  rw [extract, messageHeader, bodyActions]
  cases header : extractHeader library mstr with
  | error fault => exact ⟨rfl, rfl⟩
  | ok found =>
      obtain ⟨msgObject, hdr⟩ := found
      dsimp only
      cases array : (Object.at msgObject (text "msgs")).bind Value.getArray with
      | error fault => exact ⟨rfl, rfl⟩
      | ok msgsArray =>
          have read := unknown_of_extractActions msgsArray ⟨hdr, [], []⟩
          exact ⟨read.1, read.2⟩

end Cdcm.Frontend

namespace Cdcm.System

open Json Protocol Zmq Backend Frontend SessionsCache Machine

/-- What an event asks workers for in the name of a client. -/
def remoteAsked (library : Library) (client : ByteString) : NetworkEvent → Multiset Asked
  | .client frames _ =>
      match MessageBroker.clientBody frames with
      | some (sender, mstr) =>
          if sender = client then
            ↑((remoteActions ((bodyActions library mstr).getD [])).map fun action : Value =>
              (⟨client, messageHeader library mstr, action⟩ : Asked))
          else 0
      | none => 0
  | .start .. | .process .. | .deliver .. | .timer _ | .segment _ => 0

/-- What the broker writes for workers is read back as it is. -/
def ReadsBackAt (env : Environment) (workerEnv : WorkerEnvironment) : NetworkEvent → Prop
  | .client frames _ => ∀ sender mstr, MessageBroker.clientBody frames = some (sender, mstr) →
      let extraction := (extract env.library mstr).1
      let message : RawMsg := ⟨extraction.hdr, extraction.unknown⟩
      workerEnv.library.fromString (env.library.toString (some 2) message.toValue) =
        some message.toValue
  | .start .. | .process .. | .deliver .. | .timer _ | .segment _ => True

/-- A worker reads header and actions of the request that the broker has made. -/
theorem readRequest_rawMsg {library : Library} {mstr : ByteString} {message : RawMsg}
    (reads : library.fromString mstr = some message.toValue) :
    readRequest library mstr = .ok (message.hdr, message.msgs.map Value.object) := by
  rw [readRequest, reads]
  rfl

section Requests

variable {env : Environment} {workerEnv : WorkerEnvironment} {client : ByteString}

/-- The sender of a message is a C string. -/
theorem clientBody_nulFree {frames : List ByteString} {sender mstr : ByteString}
    (isBody : MessageBroker.clientBody frames = some (sender, mstr)) : 0 ∉ sender := by
  rw [MessageBroker.clientBody] at isBody
  split at isBody
  next =>
    split at isBody
    next =>
      obtain ⟨rfl, _⟩ := Prod.mk.inj (Option.some.inj isBody)
      exact zero_not_mem_cStr _
    next => contradiction
  next => contradiction

/-- The parts of the request that is made of an extraction. -/
theorem unwrap_workerRequest (prints : env.library.Prints) {sender : ByteString}
    (nulFree : 0 ∉ sender) (extraction : Extraction) :
    (MessageBroker.workerRequest env extraction sender).unwrap =
      (sender, ⟨[env.library.toString (some 2)
        (RawMsg.toValue ⟨extraction.hdr, extraction.unknown⟩)]⟩) := by
  have body := plain_of_prints prints (some 2)
    (RawMsg.toValue ⟨extraction.hdr, extraction.unknown⟩)
  have isSender := cStr_of_zero_not_mem nulFree
  have shape : MessageBroker.workerRequest env extraction sender = ⟨sender :: [] ::
      [env.library.toString (some 2) (RawMsg.toValue ⟨extraction.hdr, extraction.unknown⟩)]⟩ := by
    simp [MessageBroker.workerRequest, Zmsg.wrap, Zmsg.pushFront, Zmsg.bodySet,
      Zmsg.emplaceBack, Zmsg.empty, body.cStr_eq, isSender]
  rw [shape, Zmsg.unwrap_delimited, isSender]

/-- The request that an event hands over asks for what the event does. -/
theorem askedFor_handedBy (prints : env.library.Prints) {event : NetworkEvent}
    {brokerEvent : BrokerEvent} {net : Network} (isEvent : net.brokerEvent event = some brokerEvent)
    (reads : ReadsBackAt env workerEnv event) :
    ((MessageBroker.handedBy env brokerEvent).toList.map fun msg =>
      askedFor workerEnv.library client msg.unwrap).sum = remoteAsked env.library client event := by
  cases event with
  | start | process => contradiction
  | timer | segment =>
      obtain rfl := Option.some.inj isEvent
      rfl
  | deliver peer clock =>
      obtain ⟨_, _, rfl⟩ := Option.map_eq_some_iff.mp isEvent
      rfl
  | client frames input =>
      obtain rfl := Option.some.inj isEvent
      rw [MessageBroker.handedBy, remoteAsked]
      cases isBody : MessageBroker.clientBody frames with
      | none => rfl
      | some found =>
          obtain ⟨sender, mstr⟩ := found
          have read := readRequest_rawMsg (reads sender mstr isBody)
          obtain ⟨header, unknown⟩ := unknown_of_extract env.library mstr
          have unwrapped := unwrap_workerRequest prints (clientBody_nulFree isBody)
            (extract env.library mstr).1
          simp only [Option.bind_some]
          generalize (extract env.library mstr).1 = extraction at read header unknown unwrapped ⊢
          have body := plain_of_prints prints (some 2)
            (RawMsg.toValue ⟨extraction.hdr, extraction.unknown⟩)
          by_cases nothing : extraction.unknown = []
          · rw [nothing, List.map_nil] at unknown
            simp [nothing, ← unknown]
          · simp only [ne_eq, nothing, not_false_eq_true, if_true, Option.toList_some,
              List.map_singleton, List.sum_singleton, unwrapped, askedFor]
            split
            next =>
              have isBody : cStr ((Zmsg.mk [env.library.toString (some 2)
                  (RawMsg.toValue ⟨extraction.hdr, extraction.unknown⟩)]).body.getD []) =
                    env.library.toString (some 2)
                      (RawMsg.toValue ⟨extraction.hdr, extraction.unknown⟩) := body.cStr_eq
              rw [← isBody] at read
              rw [askedBy_of_read read, unknown, header]
            next => rfl

/-- One step hands over what its event asks for. -/
theorem step_handedFor {event : NetworkEvent} {net next : Network}
    (prints : env.library.Prints) (accounted : net.broker.Accounted)
    (stepped : net.step env workerEnv event = some next) :
    next.broker.Accounted ∧ (ReadsBackAt env workerEnv event →
      handedFor workerEnv.library client next.broker =
        handedFor workerEnv.library client net.broker + remoteAsked env.library client event) := by
  have broker (stepped : net.brokerStep env event = some next) :
      next.broker.Accounted ∧ (ReadsBackAt env workerEnv event →
        handedFor workerEnv.library client next.broker =
          handedFor workerEnv.library client net.broker +
            remoteAsked env.library client event) := by
    obtain ⟨brokerEvent, _, _, isEvent, _, isStep, _⟩ := brokerStep_spec accounted stepped
    refine ⟨accounted.step isStep, fun reads => ?_⟩
    rw [handedFor, MessageBroker.step_handed isStep, List.map_append, List.sum_append,
      askedFor_handedBy prints isEvent reads]
    rfl
  cases event with
  | start peer connect handle =>
      rw [Network.step] at stepped
      split at stepped
      next => contradiction
      next =>
        obtain ⟨_, _, rfl⟩ := Option.map_eq_some_iff.mp stepped
        exact ⟨accounted, fun _ => (add_zero _).symm⟩
  | process peer event =>
      simp only [Network.step, Network.processStep, Option.bind_eq_bind, Option.bind_eq_some_iff]
        at stepped
      obtain ⟨_, _, _, _, _, _, stepped⟩ := stepped
      split at stepped
      next => contradiction
      next =>
        obtain rfl := Option.some.inj stepped
        exact ⟨accounted, fun _ => (add_zero _).symm⟩
  | deliver | client | timer | segment => exact broker stepped

end Requests

/-- A run hands over what its events ask for. -/
theorem handedFor_run {env : Environment} {workerEnv : WorkerEnvironment}
    {client : ByteString} {heartbeatExpiry : Nat} {sessions : SharedMemSessionsCache}
    {guard : Network → NetworkEvent → Prop} {events : List NetworkEvent} {net : Network}
    (prints : env.library.Prints) (reads : ∀ event ∈ events, ReadsBackAt env workerEnv event)
    (run : Run (Network.step env workerEnv) guard (.new heartbeatExpiry sessions) events net) :
    handedFor workerEnv.library client net.broker =
      (events.map (remoteAsked env.library client)).sum := by
  have both := run.history (fun events net => net.broker.Accounted ∧
      ((∀ event ∈ events, ReadsBackAt env workerEnv event) →
        handedFor workerEnv.library client net.broker =
          (events.map (remoteAsked env.library client)).sum))
    ⟨⟨rfl, by simp [Network.new, MessageBroker.handedMsgs, MessageBroker.new],
      by simp [Network.new, MessageBroker.new]⟩, fun _ => rfl⟩ ?_
  · exact both.2 reads
  · rintro events state event next ⟨accounted, before⟩ - stepped
    have here := @step_handedFor env workerEnv client event state next prints accounted stepped
    refine ⟨here.1, fun reads => ?_⟩
    rw [List.map_append, List.sum_append, List.map_singleton, List.sum_singleton,
      ← before fun other member => reads other (List.mem_append_left _ member)]
    exact here.2 (reads event (List.mem_append_right _ List.mem_cons_self))

/-- The worker reads back what the broker has written for it. -/
theorem servedEvents_readBack (acts : Nat → Backend.ActInput) :
    ∀ event ∈ servedEvents acts, ReadsBackAt lateEnv lateWorkerEnv event := by
  intro event member
  simp only [servedEvents, List.mem_cons, List.not_mem_nil, or_false] at member
  rcases member with rfl | rfl | rfl | rfl | rfl | rfl | rfl
  case inr.inr.inl =>
    intro sender mstr isBody
    have body : MessageBroker.clientBody [text "c", [], mdpcClient, text "cdcm",
        lateBody.print none 0] = some (text "c", lateBody.print none 0) := by decide +kernel
    obtain ⟨rfl, rfl⟩ := Prod.mk.inj (Option.some.inj (body.symm.trans isBody))
    have parsed : lateEnv.library.fromString (lateBody.print none 0) = some lateBody := rfl
    have message : RawMsg.toValue ⟨(extract lateEnv.library (lateBody.print none 0)).1.hdr,
        (extract lateEnv.library (lateBody.print none 0)).1.unknown⟩ = lateBody := by
      rw [extract, extractHeader, parsed]
      rfl
    dsimp only
    rw [message]
    rfl
  all_goals trivial

end Cdcm.System
