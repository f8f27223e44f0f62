import Cdcm.Zmq.UuidFrame

/-!
# Multipart messages

The message class `zmsg` of `zmq_message.cpp` and the constants of `mdp.hpp`.  A
part may hold any bytes, but whatever the program passes in travels as a C
string.  `recv` and `send` translate UUID frames between the wire and the parts.
-/

namespace Cdcm.Zmq

/-! ## Protocol constants -/

/-- The version of MDP/Client. -/
def mdpcClient : ByteString := text "MDPC01"

/-- The version of MDP/Worker. -/
def mdpwWorker : ByteString := text "MDPW01"

def mdpwReady : ByteString := [1]
def mdpwRequest : ByteString := [2]
def mdpwReply : ByteString := [3]
def mdpwHeartbeat : ByteString := [4]
def mdpwDisconnect : ByteString := [5]

/-- A multipart message. -/
structure Zmsg where
  partData : List ByteString
  deriving DecidableEq, Repr

/-- The part that stands for a frame of the wire. -/
def recvPart (frame : ByteString) : ByteString :=
  if IsUuidFrame frame then encodeUuid frame else frame

/-- The frame that a part goes out as; `none` when `decode_uuid` asserts. -/
def sendPart (part : ByteString) : Option ByteString :=
  if LooksLikeUuid part then decodeUuid part else some part

namespace Zmsg

/-- The message without parts. -/
def empty : Zmsg := ⟨[]⟩

/-- The message that `recv` builds from the frames on the wire. -/
def recv (frames : List ByteString) : Zmsg := ⟨frames.map recvPart⟩

/-- The frames that `send` puts on the wire. -/
def send (msg : Zmsg) : Option (List ByteString) := msg.partData.mapM sendPart

/-- Number of parts. -/
def parts (msg : Zmsg) : Nat := msg.partData.length

/-- Add a C string behind the other parts. -/
def emplaceBack (msg : Zmsg) (part : ByteString) : Zmsg :=
  ⟨msg.partData ++ [cStr part]⟩

/-- Replace the last part, if any. -/
def bodySet (msg : Zmsg) (body : ByteString) : Zmsg :=
  emplaceBack ⟨msg.partData.dropLast⟩ body

/-- The last part; `none` is the null pointer. -/
def body (msg : Zmsg) : Option ByteString := msg.partData.getLast?

/-- Add a C string in front of the other parts. -/
def pushFront (msg : Zmsg) (part : ByteString) : Zmsg :=
  ⟨cStr part :: msg.partData⟩

/-- Take the first part; empty when there is none. -/
def popFront (msg : Zmsg) : ByteString × Zmsg :=
  match msg.partData with
  | [] => ([], msg)
  | part :: rest => (part, ⟨rest⟩)

/-- The first part as a C string; `none` is the null pointer. -/
def address (msg : Zmsg) : Option ByteString := msg.partData.head?.map cStr

/-- Put an address and an optional delimiter in front. -/
def wrap (msg : Zmsg) (address : ByteString) (delim : Option ByteString) : Zmsg :=
  match delim with
  | none => msg.pushFront address
  | some delim => (msg.pushFront delim).pushFront address

/-- Take the first part as an address, and the part behind it when that is an
empty C string. -/
def unwrap (msg : Zmsg) : ByteString × Zmsg :=
  match msg.partData with
  | [] => ([], msg)
  | part :: rest =>
      let remaining : Zmsg := ⟨rest⟩
      (cStr part,
        if remaining.address = some [] then remaining.popFront.2 else remaining)

@[simp] theorem partData_pushFront (msg : Zmsg) (part : ByteString) :
    (msg.pushFront part).partData = cStr part :: msg.partData := rfl

@[simp] theorem partData_wrap (msg : Zmsg) (address delim : ByteString) :
    (msg.wrap address (some delim)).partData =
      cStr address :: cStr delim :: msg.partData := rfl

@[simp] theorem partData_recv (frames : List ByteString) :
    (recv frames).partData = frames.map recvPart := rfl

@[simp] theorem popFront_cons (part : ByteString) (rest : List ByteString) :
    popFront ⟨part :: rest⟩ = (part, ⟨rest⟩) := rfl

/-- An address with an empty delimiter behind it is unwrapped with it. -/
@[simp] theorem unwrap_delimited (address : ByteString) (rest : List ByteString) :
    unwrap ⟨address :: [] :: rest⟩ = (cStr address, ⟨rest⟩) := rfl

/-- The address that is taken is a C string. -/
theorem zero_not_mem_unwrap (msg : Zmsg) : 0 ∉ msg.unwrap.1 := by
  obtain ⟨parts⟩ := msg
  cases parts with
  | nil => exact List.not_mem_nil
  | cons part rest => exact zero_not_mem_cStr part

/-- A message goes out part by part. -/
theorem send_cons {part : ByteString} {rest frames : List ByteString} :
    send ⟨part :: rest⟩ = some frames ↔
      ∃ frame others, sendPart part = some frame ∧ send ⟨rest⟩ = some others ∧
        frames = frame :: others := by
  simp only [send, List.mapM_cons, Option.bind_eq_bind, Option.bind_eq_some_iff,
    Option.pure_def, Option.some.injEq]
  constructor
  · rintro ⟨frame, framed, others, rest, rfl⟩
    exact ⟨frame, others, framed, rest, rfl⟩
  · rintro ⟨frame, others, framed, rest, rfl⟩
    exact ⟨frame, framed, others, rest, rfl⟩

/-- Parts that the codec does not touch go out as they are. -/
theorem send_cons_of_not_uuid {part : ByteString} {rest frames : List ByteString}
    (notUuid : ¬ LooksLikeUuid part) :
    send ⟨part :: rest⟩ = some frames ↔
      ∃ others, send ⟨rest⟩ = some others ∧ frames = part :: others := by
  have unchanged : sendPart part = some part := if_neg notUuid
  simp [send_cons, unchanged]

end Zmsg

/-! ## Frames that pass the codec unchanged -/

/-- Identities and texts that neither direction of the codec touches: non-empty,
without NUL bytes and not of the 33-byte `@` form. -/
structure Plain (bytes : ByteString) : Prop where
  nonempty : bytes ≠ []
  nulFree : 0 ∉ bytes
  notUuid : ¬ LooksLikeUuid bytes

/-- NUL-free bytes are never taken for a binary UUID frame. -/
theorem recvPart_of_nulFree {frame : ByteString} (nulFree : 0 ∉ frame) :
    recvPart frame = frame := by
  refine if_neg fun uuid => nulFree ?_
  exact List.mem_of_mem_head? uuid.2

theorem sendPart_of_not_uuid {part : ByteString} (notUuid : ¬ LooksLikeUuid part) :
    sendPart part = some part := if_neg notUuid

namespace Plain

variable {bytes : ByteString}

theorem cStr_eq (plain : Plain bytes) : cStr bytes = bytes :=
  cStr_of_zero_not_mem plain.nulFree

theorem recvPart_eq (plain : Plain bytes) : recvPart bytes = bytes :=
  recvPart_of_nulFree plain.nulFree

theorem sendPart_eq (plain : Plain bytes) : sendPart bytes = some bytes :=
  sendPart_of_not_uuid plain.notUuid

end Plain

/-- A part that is not cut short where it is decoded. -/
def Sendable (part : ByteString) : Prop := LooksLikeUuid part → 0 ∉ part

instance (part : ByteString) : Decidable (Sendable part) :=
  inferInstanceAs (Decidable (LooksLikeUuid part → 0 ∉ part))

/-- The assertions of `send` hold for a part exactly when it is sendable. -/
theorem sendPart_isSome_iff {part : ByteString} : (sendPart part).isSome ↔ Sendable part := by
  rw [sendPart, Sendable]
  split
  next shape =>
    rw [decodeUuid_isSome_iff shape]
    exact (imp_iff_right shape).symm
  next other => exact iff_of_true rfl fun shape => absurd shape other

/-- A message goes out exactly when all its parts do. -/
theorem Zmsg.send_isSome_iff {msg : Zmsg} :
    msg.send.isSome ↔ ∀ part ∈ msg.partData, Sendable part := by
  obtain ⟨parts⟩ := msg
  induction parts with
  | nil => exact iff_of_true rfl fun part member => absurd member List.not_mem_nil
  | cons part rest ih =>
      rw [List.forall_mem_cons, ← ih, ← sendPart_isSome_iff]
      constructor
      · intro sends
        obtain ⟨frames, sent⟩ := Option.isSome_iff_exists.mp sends
        obtain ⟨frame, others, framed, rest, _⟩ := Zmsg.send_cons.mp sent
        rw [framed, rest]
        exact ⟨rfl, rfl⟩
      · intro ⟨framed, rest⟩
        obtain ⟨frame, framed⟩ := Option.isSome_iff_exists.mp framed
        obtain ⟨others, rest⟩ := Option.isSome_iff_exists.mp rest
        rw [Zmsg.send_cons.mpr ⟨frame, others, framed, rest, rfl⟩]
        rfl

/-- A message of NUL-free parts always goes out. -/
theorem Zmsg.send_isSome {msg : Zmsg} (nulFree : ∀ part ∈ msg.partData, 0 ∉ part) :
    msg.send.isSome :=
  Zmsg.send_isSome_iff.mpr fun part member _ => nulFree part member

/-- Parts that do not look like UUID frames go out as they are. -/
theorem Zmsg.send_eq_self {parts : List ByteString}
    (notUuid : ∀ part ∈ parts, ¬ LooksLikeUuid part) : Zmsg.send ⟨parts⟩ = some parts := by
  induction parts with
  | nil => rfl
  | cons part rest ih =>
      have others := ih fun other member => notUuid other (List.mem_cons_of_mem part member)
      exact (Zmsg.send_cons_of_not_uuid (notUuid part List.mem_cons_self)).mpr
        ⟨rest, others, rfl⟩

/-- NUL-free frames arrive as they are. -/
theorem Zmsg.recv_eq_self {frames : List ByteString}
    (nulFree : ∀ frame ∈ frames, 0 ∉ frame) : Zmsg.recv frames = ⟨frames⟩ := by
  have same : frames.map recvPart = frames.map id :=
    List.map_congr_left fun frame member => recvPart_of_nulFree (nulFree frame member)
  rw [Zmsg.recv, same, List.map_id]

/-- The receiver of a UUID frame sees the text it was sent from. -/
theorem recvPart_sendPart_encodeUuid {frame : ByteString} (uuid : IsUuidFrame frame) :
    (sendPart (encodeUuid frame)).map recvPart = some (encodeUuid frame) := by
  rw [sendPart, if_pos (looksLikeUuid_encodeUuid uuid), decodeUuid_encodeUuid uuid]
  exact congrArg some (if_pos uuid)

end Cdcm.Zmq
