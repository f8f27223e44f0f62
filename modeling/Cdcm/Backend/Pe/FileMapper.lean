import Cdcm.Lib.Bytes
import Cdcm.Lib.Hoare

/-!
# The file mapper

The class `file_mapper` keeps a buffer of the size of a remote file and reads chunks of
the file into it on demand.  A pointer into the buffer is its distance from the buffer's
start, modulo 2^64.  Beside the mapper, a trace notes for which ranges `map_chunk`
returned true and which fields were then dereferenced.
-/

namespace Cdcm.Backend.Pe

open Hoare

/-- What a call of `read` returns, and the bytes it has written to its destination. -/
structure ReadResult where
  count : Int
  bytes : ByteString
  deriving DecidableEq, Repr

/-- `file_reader_interface`: what each call of `read` does, by its number, its offset and
its size. -/
structure Reader where
  validateOpen : Bool
  fileSize : Nat
  read : Nat → Nat → Nat → ReadResult
  fileSize_lt : fileSize < 2 ^ 64

/-- The reader of an open file that returns what the file contains. A file's size is a
signed number. -/
structure Reader.Returns (reader : Reader) (content : ByteString) : Prop where
  isOpen : reader.validateOpen = true
  fileSize : reader.fileSize = content.length
  signed : content.length < 2 ^ 63
  read : ∀ call offset size, offset + size ≤ content.length →
    reader.read call offset size = ⟨size, (content.drop offset).take size⟩

/-- A reader of a file with some content. -/
def Reader.ofContent (content : ByteString) (signed : content.length < 2 ^ 63) : Reader where
  validateOpen := true
  fileSize := content.length
  read _ offset size := ⟨((content.drop offset).take size).length, (content.drop offset).take size⟩
  fileSize_lt := by omega

theorem Reader.ofContent_returns {content : ByteString} (signed : content.length < 2 ^ 63) :
    (Reader.ofContent content signed).Returns content where
  isOpen := rfl
  fileSize := rfl
  signed := signed
  read call offset size within := by
    have count : ((content.drop offset).take size).length = size := by
      rw [List.length_take, List.length_drop]
      omega
    change (⟨((content.drop offset).take size).length, _⟩ : ReadResult) = _
    rw [count]

/-- `bounded_chunk`: the bytes from an offset up to an end. -/
structure BoundedChunk where
  offset : Nat
  last : Nat
  deriving DecidableEq, Repr

/-- `bounded_chunk::size`. -/
def BoundedChunk.size (chunk : BoundedChunk) : Nat :=
  (chunk.last + 2 ^ 64 - chunk.offset) % 2 ^ 64

/-- `bounded_chunk::contains`. -/
def BoundedChunk.contains (chunk other : BoundedChunk) : Bool :=
  chunk.offset ≤ other.offset ∧ other.last ≤ chunk.last

/-- `find` of the interval set: the first interval that is neither in front of the chunk
nor behind it. -/
def findChunk (map : List BoundedChunk) (chunk : BoundedChunk) : Option BoundedChunk :=
  map.find? fun stored => chunk.offset < stored.last ∧ stored.offset < chunk.last

/-- `add` of the interval set: intervals that touch are joined, and they are in order. -/
def addChunk (chunk : BoundedChunk) : List BoundedChunk → List BoundedChunk
  | [] => [chunk]
  | stored :: rest =>
      if stored.last < chunk.offset then stored :: addChunk chunk rest
      else if chunk.last < stored.offset then chunk :: stored :: rest
      else addChunk ⟨min stored.offset chunk.offset, max stored.last chunk.last⟩ rest

/-- `file_mapper`, with the number of its calls of `read`. Without an open reader the
size is never assigned. -/
structure FileMapper where
  reader : Reader
  allocatedSize : Option Nat
  data : ByteString
  map : List BoundedChunk
  reads : Nat

namespace FileMapper

/-- The constructor. -/
def new (reader : Reader) : FileMapper :=
  if reader.validateOpen then
    ⟨reader, some reader.fileSize, List.replicate reader.fileSize 0, [], 0⟩
  else ⟨reader, none, [], [], 0⟩

/-- `in_bound`. -/
def inBound (allocatedSize offset size : Nat) : Bool :=
  (size + offset) % 2 ^ 64 ≤ allocatedSize

/-- `minimum_read_size`. -/
def minimumReadSize (allocatedSize offset size : Nat) : Nat :=
  min ((allocatedSize + 2 ^ 64 - offset) % 2 ^ 64) (max (1024 * 16) size)

/-- The chunk that `map_chunk` makes sure of. -/
def newChunk (allocatedSize offset size : Nat) : BoundedChunk :=
  ⟨offset, (offset + minimumReadSize allocatedSize offset size) % 2 ^ 64⟩

/-- What a call of `read` leaves in the buffer. -/
def store (data : ByteString) (offset size : Nat) (bytes : ByteString) : ByteString :=
  let written := bytes.take size
  data.take offset ++ written ++ data.drop (offset + written.length)

/-- `map_chunk`, when the size has been assigned. -/
def mapChunk (fm : FileMapper) (allocatedSize offset size : Nat) : FileMapper × Bool :=
  if inBound allocatedSize offset size then
    let chunk := newChunk allocatedSize offset size
    if (findChunk fm.map chunk).any fun stored => stored.contains chunk then (fm, true)
    else
      let result := fm.reader.read fm.reads chunk.offset chunk.size
      let read := { fm with
        data := store fm.data chunk.offset chunk.size result.bytes
        reads := fm.reads + 1 }
      if 0 < result.count then
        ({ read with
          map := if chunk.offset < chunk.last then addChunk chunk fm.map else fm.map }, true)
      else (read, false)
  else (fm, false)

end FileMapper

/-! ## Programs over a mapped file -/

/-- Why a program stops: it returns an error code or a null pointer, it reads a size that
was never assigned, its behaviour is undefined, or a loop has made more turns than there
are bytes in the buffer. -/
inductive Stop where
  | returned (code : Int)
  | null
  | unassigned
  | undefined
  | endless
  deriving DecidableEq, Repr

/-- What a run notes: a range for which `map_chunk` returned true, and a field that was
dereferenced. -/
inductive Access where
  | mapped (offset size : Nat)
  | field (offset size : Nat)
  deriving DecidableEq, Repr

/-- `pe_file_t`, as far as it is used later. The arrays hold pointers. -/
structure PeFile where
  numDirectories : Nat
  directories : Option (List Nat)
  numSections : Nat
  sections : Option (List Nat)
  entrypoint : Nat
  imagebase : Nat
  deriving DecidableEq, Repr

/-- `pe_context`, with the trace of its run. -/
structure PeContext where
  fm : FileMapper
  pe : PeFile
  trace : List Access

/-- A new context. -/
def PeContext.new (reader : Reader) : PeContext :=
  ⟨.new reader, ⟨0, none, 0, none, 0, 0⟩, []⟩

/-- A method of `pe_context`. -/
abbrev Method := EStateM Stop PeContext

/-- What a program returns, if it does. -/
def returned {α : Type} (program : Method α) (context : PeContext) : Option α :=
  match program.run context with
  | .ok value _ => some value
  | .error _ _ => none

theorem returned_eq_some_iff {α : Type} {program : Method α} {context : PeContext} {value : α} :
    returned program context = some value ↔ ∃ next, program.run context = .ok value next := by
  unfold returned
  cases program.run context with
  | ok result next => simp
  | error reason next => simp

/-- Change `pe_`. -/
def modifyPe (change : PeFile → PeFile) : Method Unit :=
  modify fun context => { context with pe := change context.pe }

/-- `ptr_add`. -/
def ptrAdd (p o : Nat) : Nat := (p + o) % 2 ^ 64

theorem ptrAdd_eq {p o : Nat} (small : p + o < 2 ^ 64) : ptrAdd p o = p + o :=
  Nat.mod_eq_of_lt small

/-- The number that bytes write, least significant first. -/
def littleEndian (bytes : ByteString) : Nat :=
  bytes.foldr (fun byte value => byte.val + 256 * value) 0

/-- The field at some position. -/
def field (content : ByteString) (offset size : Nat) : Nat :=
  littleEndian ((content.drop offset).take size)

theorem littleEndian_lt (bytes : ByteString) : littleEndian bytes < 256 ^ bytes.length := by
  induction bytes with
  | nil => decide
  | cons byte rest ih =>
      have small := byte.isLt
      change byte.val + 256 * littleEndian rest < 256 ^ (rest.length + 1)
      rw [pow_succ]
      omega

theorem field_lt (content : ByteString) (offset size : Nat) :
    field content offset size < 256 ^ size := by
  apply lt_of_lt_of_le (littleEndian_lt _)
  exact Nat.pow_le_pow_right (by omega) (List.length_take_le size _)

/-- Read a field. Outside the buffer that is undefined. -/
def deref (offset size : Nat) : Method Nat := do
  let context ← get
  set { context with trace := context.trace ++ [Access.field offset size] }
  if offset + size ≤ context.fm.data.length then
    return field context.fm.data offset size
  else throw .undefined

/-- `map_chunk`. -/
def mapChunk (offset size : Nat) : Method Bool := do
  let context ← get
  match context.fm.allocatedSize with
  | none => throw .unassigned
  | some allocatedSize =>
      let (fm, isMapped) := context.fm.mapChunk allocatedSize offset size
      let trace := if isMapped then context.trace ++ [Access.mapped offset size] else context.trace
      set { context with fm := fm, trace := trace }
      return isMapped

theorem deref_run (offset size : Nat) (context : PeContext) :
    (deref offset size).run context =
      if offset + size ≤ context.fm.data.length then
        .ok (field context.fm.data offset size)
          { context with trace := context.trace ++ [.field offset size] }
      else .error .undefined { context with trace := context.trace ++ [.field offset size] } := by
  unfold deref
  simp only [bind, EStateM.bind, EStateM.run, get, getThe, MonadStateOf.get, EStateM.get, set,
    EStateM.set]
  split <;> rfl

theorem mapChunk_run (offset size : Nat) (context : PeContext) :
    (mapChunk offset size).run context =
      match context.fm.allocatedSize with
      | none => .error .unassigned context
      | some allocatedSize =>
          .ok (context.fm.mapChunk allocatedSize offset size).2 { context with
            fm := (context.fm.mapChunk allocatedSize offset size).1
            trace := if (context.fm.mapChunk allocatedSize offset size).2 then
                context.trace ++ [.mapped offset size]
              else context.trace } := by
  unfold mapChunk
  simp only [bind, EStateM.bind, EStateM.run, get, getThe, MonadStateOf.get, EStateM.get, set]
  cases context.fm.allocatedSize with
  | none => rfl
  | some allocatedSize => rfl

/-- `map_chunk_by_pointer`: the distance from the buffer's start is signed. -/
def mapChunkByPointer (pointer size : Nat) : Method Bool :=
  if pointer < 2 ^ 63 then mapChunk pointer size else return false

/-- Map a chunk, or stop. -/
def require (stop : Stop) (pointer size : Nat) : Method Unit := do
  let isMapped ← mapChunkByPointer pointer size
  if isMapped then return () else throw stop

end Cdcm.Backend.Pe
