import Cdcm.Backend.Pe.Mapping
import Cdcm.Lib.Machine

/-!
# Faithful mapping

Sequences of calls of the file mapper over a reader that may fail or stop early, as
`smb_client::read` does.  Beside the mapper it is noted what the reads have stored.  The
mapper answers for bytes that no read has stored exactly when a read that it records as
complete leaves a gap.
-/

namespace Cdcm.Backend.Pe

open Hoare Machine

/-! ## The reader of `smb_client` -/

/-- libsmbclient behind `smb_client`: the result of a seek, and the bytes that
`smbc_read` gets in some turn of some call of `read`, from a position and at most so
many, unless it fails. -/
structure RemoteFile where
  seek : Nat → Int
  read : Nat → Nat → Nat → Nat → Option ByteString

namespace RemoteFile

variable (file : RemoteFile)

/-- The loop of `smb_client::read`: with what was read in the turns before, read the
rest. -/
def readLoop (call offset turn : Nat) (bytes : ByteString) (rest : Nat) : ReadResult :=
  if rest = 0 then ⟨bytes.length, bytes⟩
  else
    match file.read call turn (offset + bytes.length) rest with
    | none => ⟨-1, bytes⟩
    | some [] => ⟨bytes.length, bytes⟩
    | some (byte :: more) =>
        readLoop call offset (turn + 1) (bytes ++ byte :: more) (rest - (more.length + 1))
termination_by rest

/-- `smb_client::read`. -/
def smbRead (call offset size : Nat) : ReadResult :=
  if file.seek offset < 0 then ⟨-1, []⟩ else file.readLoop call offset 0 [] size

/-- `smb_client` with an open file of some size. -/
def smbClient (fileSize : Nat) (small : fileSize < 2 ^ 64) : Reader where
  validateOpen := true
  fileSize := fileSize
  read := file.smbRead
  fileSize_lt := small

/-- What `smbc_read` gets is at the position in the file, and not more than wanted. -/
def Reads (content : ByteString) : Prop :=
  ∀ call turn position size bytes, file.read call turn position size = some bytes →
    bytes <+: (content.drop position).take size

end RemoteFile

/-- The reader stores leading bytes of the range in the file, and returns -1 or their
number. -/
structure Reader.Stores (reader : Reader) (content : ByteString) : Prop where
  fileSize : reader.fileSize = content.length
  leading : ∀ call offset size,
    (reader.read call offset size).bytes <+: (content.drop offset).take size
  count : ∀ call offset size, (reader.read call offset size).count = -1 ∨
    (reader.read call offset size).count = (reader.read call offset size).bytes.length

namespace RemoteFile

variable {file : RemoteFile} {content : ByteString}

/-- What the loop has stored leads the range. -/
theorem readLoop_spec (reads : file.Reads content) {call offset size rest turn : Nat}
    {bytes : ByteString} (leading : bytes <+: (content.drop offset).take size)
    (left : rest = size - bytes.length) :
    (file.readLoop call offset turn bytes rest).bytes <+: (content.drop offset).take size ∧
      ((file.readLoop call offset turn bytes rest).count = -1 ∨
        (file.readLoop call offset turn bytes rest).count =
          (file.readLoop call offset turn bytes rest).bytes.length) := by
  fun_induction file.readLoop call offset turn bytes rest with
  | case1 => exact ⟨leading, .inr rfl⟩
  | case2 => exact ⟨leading, .inl rfl⟩
  | case3 => exact ⟨leading, .inr rfl⟩
  | case4 turn bytes rest _ byte more gets ih =>
      apply ih
      · obtain ⟨behind, whole⟩ := leading
        have remaining : behind = (content.drop (offset + bytes.length)).take rest := by
          rw [left, ← List.drop_drop, ← List.drop_take, ← whole, List.drop_left]
        have next := reads _ _ _ _ _ gets
        rw [← remaining] at next
        rw [← whole]
        exact (List.prefix_append_right_inj bytes).mpr next
      · rw [List.length_append, List.length_cons]
        omega

/-- `smb_client::read` stores leading bytes of the range. -/
theorem smbClient_stores (reads : file.Reads content) (small : content.length < 2 ^ 64) :
    (file.smbClient content.length small).Stores content := by
  have each : ∀ call offset size,
      (file.smbRead call offset size).bytes <+: (content.drop offset).take size ∧
        ((file.smbRead call offset size).count = -1 ∨
          (file.smbRead call offset size).count =
            (file.smbRead call offset size).bytes.length) := by
    intro call offset size
    rw [smbRead]
    split
    · exact ⟨List.nil_prefix, .inl rfl⟩
    · exact readLoop_spec reads List.nil_prefix rfl
  exact ⟨rfl, fun call offset size => (each call offset size).1,
    fun call offset size => (each call offset size).2⟩

end RemoteFile

/-! ## Sequences of calls -/

/-- A call of `map_chunk`, or of `map_chunk_by_pointer`. -/
structure Call where
  byPointer : Bool
  offset : Fin (2 ^ 64)
  size : Fin (2 ^ 64)
  deriving DecidableEq, Repr

/-- Make the call. -/
def Call.program (call : Call) : Method Bool :=
  if call.byPointer then mapChunkByPointer call.offset call.size
  else mapChunk call.offset call.size

/-- The call gets to `map_chunk`. -/
def Call.reaches (call : Call) : Prop := call.byPointer = true → call.offset.val < 2 ^ 63

instance (call : Call) : Decidable call.reaches :=
  inferInstanceAs (Decidable (_ → _))

theorem Call.program_run (call : Call) (context : PeContext) :
    call.program.run context =
      if call.reaches then (mapChunk call.offset call.size).run context
      else .ok false context := by
  by_cases pointer : call.byPointer = true
  · rw [Call.program, if_pos pointer, mapChunkByPointer]
    by_cases small : call.offset.val < 2 ^ 63
    · have reaches : call.reaches := fun _ => small
      rw [if_pos small, if_pos reaches]
    · rw [if_neg small, if_neg fun reaches => small (reaches pointer)]
      rfl
  · have reaches : call.reaches := fun isPointer => absurd isPointer pointer
    rw [Call.program, if_neg pointer, if_pos reaches]

/-- A file mapper, and the ranges of bytes that its reads have stored. -/
structure WatchedMapper where
  context : PeContext
  stored : List BoundedChunk

/-- The read that `map_chunk` makes, if any: for which chunk, and what it does. -/
def FileMapper.readFor (fm : FileMapper) (offset size : Nat) :
    Option (BoundedChunk × ReadResult) := do
  let allocatedSize ← fm.allocatedSize
  let chunk := newChunk allocatedSize offset size
  if inBound allocatedSize offset size ∧
      ¬ (findChunk fm.map chunk).any fun stored => stored.contains chunk then
    some (chunk, fm.reader.read fm.reads chunk.offset chunk.size)
  else none

namespace WatchedMapper

/-- The mapper of a reader, before its first call. -/
def new (reader : Reader) : WatchedMapper := ⟨.new reader, []⟩

variable (watched : WatchedMapper)

/-- The read that a call makes, if any. -/
def readOf (call : Call) : Option (BoundedChunk × ReadResult) :=
  if call.reaches then watched.context.fm.readFor call.offset call.size else none

/-- The bytes that a call stores. -/
def storedBy (call : Call) : List BoundedChunk :=
  ((watched.readOf call).map fun (chunk, result) =>
    ⟨chunk.offset, chunk.offset + result.bytes.length⟩).toList

/-- Make a call; what it answers. -/
def call (call : Call) : Option (WatchedMapper × Bool) :=
  match call.program.run watched.context with
  | .ok isMapped next => some (⟨next, watched.stored ++ watched.storedBy call⟩, isMapped)
  | .error _ _ => none

/-- Make a call. -/
def step (watched : WatchedMapper) (call : Call) : Option WatchedMapper :=
  (watched.call call).map Prod.fst

/-- A byte has been stored. -/
def Filled (i : Nat) : Prop := ∃ range ∈ watched.stored, range.offset ≤ i ∧ i < range.last

instance (i : Nat) : Decidable (watched.Filled i) :=
  inferInstanceAs (Decidable (∃ _ ∈ _, _))

/-- All bytes that a call is about have been stored, and are those of the file. -/
def Filling (content : ByteString) (call : Call) : Prop :=
  ∀ i, call.offset.val ≤ i → i < call.offset.val + call.size.val →
    watched.Filled i ∧ i < content.length ∧ watched.context.fm.data[i]? = content[i]?

/-- A read that a call makes and that the mapper counts as complete leaves no byte of
the chunk that neither it nor an earlier read has stored. -/
def NoGap (call : Call) : Prop :=
  ∀ chunk result, watched.readOf call = some (chunk, result) → 0 < result.count →
    ∀ i, chunk.offset + result.bytes.length ≤ i → i < chunk.last → watched.Filled i

variable {watched next : WatchedMapper} {content : ByteString}

/-! ## What a call does -/

/-- A call that does not get to `map_chunk` changes nothing; another one does what
`map_chunk` does. -/
theorem call_cases {call : Call} {isMapped : Bool}
    (called : watched.call call = some (next, isMapped)) :
    next.stored = watched.stored ++ watched.storedBy call ∧
      (¬ call.reaches ∧ next.context = watched.context ∧ isMapped = false ∨
        call.reaches ∧ ∃ allocatedSize,
          watched.context.fm.allocatedSize = some allocatedSize ∧
            (next.context.fm, isMapped) =
              watched.context.fm.mapChunk allocatedSize call.offset call.size) := by
  rw [WatchedMapper.call, Call.program_run] at called
  by_cases reaches : call.reaches
  · rw [if_pos reaches, mapChunk_run] at called
    cases allocated : watched.context.fm.allocatedSize with
    | none => simp [allocated] at called
    | some allocatedSize =>
        simp only [allocated, Option.some.injEq, Prod.mk.injEq] at called
        obtain ⟨rfl, rfl⟩ := called
        exact ⟨rfl, .inr ⟨reaches, allocatedSize, rfl, rfl⟩⟩
  · rw [if_neg reaches] at called
    obtain ⟨rfl, rfl⟩ := Prod.mk.inj (Option.some.inj called)
    exact ⟨rfl, .inl ⟨reaches, rfl, rfl⟩⟩

/-- Where `map_chunk` makes no read, it changes nothing, and answers yes only for a chunk
in the map. -/
theorem mapChunk_of_readFor_none {fm : FileMapper} {allocatedSize offset size : Nat}
    (allocated : fm.allocatedSize = some allocatedSize) (noRead : fm.readFor offset size = none) :
    (fm.mapChunk allocatedSize offset size).1 = fm ∧
      ((fm.mapChunk allocatedSize offset size).2 = true →
        FileMapper.inBound allocatedSize offset size = true ∧
          ∃ stored ∈ fm.map,
            offset < stored.last ∧
              stored.contains (FileMapper.newChunk allocatedSize offset size) = true) := by
  simp only [FileMapper.readFor, allocated, Option.bind_eq_bind, Option.bind_some] at noRead
  unfold FileMapper.mapChunk
  by_cases inside : FileMapper.inBound allocatedSize offset size = true
  · rw [if_pos inside]
    by_cases found : (findChunk fm.map (FileMapper.newChunk allocatedSize offset size)).any
        (fun stored => stored.contains (FileMapper.newChunk allocatedSize offset size)) = true
    · rw [if_pos found]
      obtain ⟨stored, isFound, contains⟩ := (Option.any_eq_true _ _).mp found
      have found := List.find?_some isFound
      have overlaps := of_decide_eq_true found
      exact ⟨rfl, fun _ =>
        ⟨inside, stored, List.mem_of_find?_eq_some isFound, overlaps.1, contains⟩⟩
    · rw [if_pos ⟨inside, found⟩] at noRead
      contradiction
  · rw [if_neg inside]
    exact ⟨rfl, nofun⟩

/-- Where `map_chunk` makes a read, it stores what that gets, and records the chunk when
it gets anything. -/
theorem mapChunk_of_readFor_some {fm : FileMapper} {allocatedSize offset size : Nat}
    {chunk : BoundedChunk} {result : ReadResult}
    (allocated : fm.allocatedSize = some allocatedSize)
    (reads : fm.readFor offset size = some (chunk, result)) :
    FileMapper.inBound allocatedSize offset size = true ∧
      chunk = FileMapper.newChunk allocatedSize offset size ∧
      result = fm.reader.read fm.reads chunk.offset chunk.size ∧
      fm.mapChunk allocatedSize offset size =
        ({ fm with
            data := FileMapper.store fm.data chunk.offset chunk.size result.bytes
            reads := fm.reads + 1
            map := if 0 < result.count ∧ chunk.offset < chunk.last then addChunk chunk fm.map
              else fm.map }, decide (0 < result.count)) := by
  simp only [FileMapper.readFor, allocated, Option.bind_eq_bind, Option.bind_some] at reads
  split at reads
  next needed =>
    obtain ⟨rfl, rfl⟩ := Prod.mk.inj (Option.some.inj reads)
    refine ⟨needed.1, rfl, rfl, ?_⟩
    rw [FileMapper.mapChunk, if_pos needed.1]
    dsimp only
    rw [if_neg needed.2]
    by_cases positive : 0 < (fm.reader.read fm.reads
        (FileMapper.newChunk allocatedSize offset size).offset
        (FileMapper.newChunk allocatedSize offset size).size).count
    · rw [if_pos positive]
      simp [positive]
    · rw [if_neg positive]
      simp [positive]
  next => contradiction

/-! ## The invariant -/

/-- The chunks of a map are in order, apart from each other, and not empty. -/
structure Separated (map : List BoundedChunk) : Prop where
  apart : map.Pairwise fun first second => first.last < second.offset
  nonempty : ∀ chunk ∈ map, chunk.offset < chunk.last

theorem Separated.tail {first : BoundedChunk} {rest : List BoundedChunk}
    (separated : Separated (first :: rest)) : Separated rest :=
  ⟨separated.apart.tail, fun chunk member =>
    separated.nonempty chunk (List.mem_cons_of_mem first member)⟩

theorem Separated.add {map : List BoundedChunk} (separated : Separated map)
    {chunk : BoundedChunk} (nonempty : chunk.offset < chunk.last) :
    Separated (addChunk chunk map) := by
  constructor
  · induction map generalizing chunk with
    | nil => exact List.pairwise_singleton _ _
    | cons first rest ih =>
        have firstApart := (List.pairwise_cons.mp separated.apart).1
        have firstNonempty := separated.nonempty first List.mem_cons_self
        unfold addChunk
        split
        next before =>
          refine List.pairwise_cons.mpr ⟨?_, ih separated.tail nonempty⟩
          apply @addChunk_all (fun stored => first.last < stored.offset)
          · intro one other oneBehind otherBehind _
            exact lt_min oneBehind otherBehind
          · exact firstApart
          · exact before
        split
        next behind =>
          refine List.pairwise_cons.mpr ⟨?_, separated.apart⟩
          intro stored member
          cases List.mem_cons.mp member with
          | inl same =>
              rw [same]
              exact behind
          | inr later =>
              have farther := firstApart stored later
              omega
        · apply ih separated.tail
          dsimp only
          omega
  · apply @addChunk_all (fun stored => stored.offset < stored.last)
    · intro one other oneNonempty otherNonempty _
      dsimp only
      omega
    · exact separated.nonempty
    · exact nonempty

/-- A chunk that is added lies in one of the chunks of the map. -/
theorem addChunk_contains (map : List BoundedChunk) (chunk : BoundedChunk) :
    ∃ stored ∈ addChunk chunk map, stored.offset ≤ chunk.offset ∧ chunk.last ≤ stored.last := by
  induction map generalizing chunk with
  | nil => exact ⟨chunk, List.mem_singleton.mpr rfl, le_rfl, le_rfl⟩
  | cons first rest ih =>
      unfold addChunk
      split
      · obtain ⟨stored, member, contains⟩ := ih chunk
        exact ⟨stored, List.mem_cons_of_mem first member, contains⟩
      split
      · exact ⟨chunk, List.mem_cons_self, le_rfl, le_rfl⟩
      · obtain ⟨stored, member, below, above⟩ :=
          ih ⟨min first.offset chunk.offset, max first.last chunk.last⟩
        dsimp only at below above
        exact ⟨stored, member, by omega, by omega⟩

/-- In a separated map, a chunk inside one of its chunks is found. -/
theorem Separated.find {map : List BoundedChunk} (separated : Separated map)
    {stored chunk : BoundedChunk} (member : stored ∈ map) (nonempty : chunk.offset < chunk.last)
    (below : stored.offset ≤ chunk.offset) (above : chunk.last ≤ stored.last) :
    findChunk map chunk = some stored := by
  induction map with
  | nil => contradiction
  | cons first rest ih =>
      unfold findChunk
      cases List.mem_cons.mp member with
      | inl same =>
          subst same
          apply List.find?_cons_of_pos
          apply decide_eq_true
          omega
      | inr later =>
          have apart := (List.pairwise_cons.mp separated.apart).1 stored later
          rw [List.find?_cons_of_neg]
          · exact ih separated.tail later
          · rw [decide_eq_true_iff]
            omega

/-- What holds of the mapper of a reader in every run. -/
structure Tracks (reader : Reader) (content : ByteString) (watched : WatchedMapper) : Prop where
  reader : watched.context.fm.reader = reader
  allocated : ∀ allocatedSize, watched.context.fm.allocatedSize = some allocatedSize →
    allocatedSize = content.length ∧ watched.context.fm.data.length = content.length
  separated : Separated watched.context.fm.map
  inside : ∀ chunk ∈ watched.context.fm.map, chunk.last ≤ content.length
  filled : ∀ i, watched.Filled i →
    i < content.length ∧ watched.context.fm.data[i]? = content[i]?

/-- The bytes of every chunk in the map have been stored. -/
def Recorded (watched : WatchedMapper) : Prop :=
  ∀ chunk ∈ watched.context.fm.map, ∀ i, chunk.offset ≤ i → i < chunk.last → watched.Filled i

/-- What a reader stores lies inside the file, and is what the file has there. -/
theorem store_leading {data bytes : ByteString} {offset size : Nat}
    (lengths : data.length = content.length)
    (leading : bytes <+: (content.drop offset).take size) :
    (FileMapper.store data offset size bytes).length = data.length ∧
      (∀ i, offset ≤ i → i < offset + bytes.length → i < content.length) ∧
      ∀ i : Nat, (FileMapper.store data offset size bytes)[i]? =
        if offset ≤ i ∧ i < offset + bytes.length then content[i]? else data[i]? := by
  have count := leading.length_le
  rw [List.length_take, List.length_drop] at count
  have taken : bytes.take size = bytes := List.take_of_length_le (by omega)
  by_cases empty : bytes = []
  · have same : FileMapper.store data offset size bytes = data := by
      simp [FileMapper.store, empty]
    rw [same]
    simp [empty]
    omega
  · have positive := List.length_pos_of_ne_nil empty
    have within : offset + bytes.length ≤ content.length := by omega
    have value : bytes = (content.drop offset).take bytes.length := by
      have cut := List.prefix_iff_eq_take.mp leading
      rw [List.take_take, min_eq_left (by omega)] at cut
      exact cut
    have shorter : FileMapper.store data offset size bytes =
        FileMapper.store data offset bytes.length
          ((content.drop offset).take bytes.length) := by
      rw [← value, FileMapper.store, FileMapper.store, taken, List.take_length]
    rw [shorter]
    exact ⟨FileMapper.length_store (by omega), fun i _ below => by omega,
      fun i => store_content lengths within i⟩

/-! ## One call -/

/-- The end of the chunk that a call from some offset is about. -/
def chunkEnd (content : ByteString) (call : Call) : Nat :=
  call.offset.val + min (content.length - call.offset.val) (max (1024 * 16) call.size.val)

/-- What a call does to the mapper of a reader of a file: it is refused, the map has its
chunk, its read fails, or its read gets something and the chunk is recorded. -/
inductive Outcome (content : ByteString) (watched : WatchedMapper) (call : Call)
    (next : WatchedMapper) : Bool → Prop where
  | refused (noRead : watched.readOf call = none)
      (same : next.context.fm = watched.context.fm) : Outcome content watched call next false
  | served {stored : BoundedChunk} (noRead : watched.readOf call = none)
      (same : next.context.fm = watched.context.fm)
      (allocated : watched.context.fm.allocatedSize = some content.length)
      (accepted : FileMapper.inBound content.length call.offset call.size = true)
      (member : stored ∈ watched.context.fm.map) (below : stored.offset ≤ call.offset.val)
      (inFile : call.offset.val < content.length)
      (above : chunkEnd content call ≤ stored.last) : Outcome content watched call next true
  | failed {chunk : BoundedChunk} {result : ReadResult}
      (reads : watched.readOf call = some (chunk, result))
      (buffer : watched.context.fm.data.length = content.length)
      (leading : result.bytes <+: (content.drop chunk.offset).take chunk.size)
      (nothing : ¬ 0 < result.count)
      (stores : next.context.fm = { watched.context.fm with
        data := FileMapper.store watched.context.fm.data chunk.offset chunk.size result.bytes
        reads := watched.context.fm.reads + 1 }) : Outcome content watched call next false
  | recorded {chunk : BoundedChunk} {result : ReadResult}
      (reads : watched.readOf call = some (chunk, result))
      (buffer : watched.context.fm.data.length = content.length)
      (allocated : watched.context.fm.allocatedSize = some content.length)
      (accepted : FileMapper.inBound content.length call.offset call.size = true)
      (leading : result.bytes <+: (content.drop chunk.offset).take chunk.size)
      (something : 0 < result.count) (inFile : call.offset.val < content.length)
      (isChunk : chunk = ⟨call.offset.val, chunkEnd content call⟩)
      (stores : next.context.fm = { watched.context.fm with
        data := FileMapper.store watched.context.fm.data chunk.offset chunk.size result.bytes
        reads := watched.context.fm.reads + 1
        map := addChunk chunk watched.context.fm.map }) : Outcome content watched call next true

variable {reader : Reader}

theorem chunkEnd_gt {call : Call} (inFile : call.offset.val < content.length) :
    call.offset.val < chunkEnd content call ∧ chunkEnd content call ≤ content.length := by
  rw [chunkEnd]
  omega

theorem newChunk_eq {call : Call} (inFile : call.offset.val < content.length)
    (small : content.length < 2 ^ 64) :
    FileMapper.newChunk content.length call.offset call.size =
      ⟨call.offset.val, chunkEnd content call⟩ :=
  FileMapper.newChunk_of_le inFile.le small

/-- What a call does. -/
theorem Tracks.outcome (stores : reader.Stores content)
    (tracks : Tracks reader content watched) {call : Call} {isMapped : Bool}
    (called : watched.call call = some (next, isMapped)) :
    Outcome content watched call next isMapped := by
  have small : content.length < 2 ^ 64 := by
    rw [← stores.fileSize]
    exact reader.fileSize_lt
  obtain ⟨-, missed | reached⟩ := call_cases called
  · obtain ⟨stops, same, rfl⟩ := missed
    exact .refused (if_neg stops) (congrArg PeContext.fm same)
  · obtain ⟨reaches, allocatedSize, allocated, result⟩ := reached
    obtain ⟨isLength, buffer⟩ := tracks.allocated allocatedSize allocated
    subst isLength
    have reads : watched.readOf call = watched.context.fm.readFor call.offset call.size :=
      if_pos reaches
    have fmEqual : next.context.fm =
        (watched.context.fm.mapChunk content.length call.offset call.size).1 :=
      congrArg Prod.fst result
    have answer : isMapped =
        (watched.context.fm.mapChunk content.length call.offset call.size).2 :=
      congrArg Prod.snd result
    cases read : watched.context.fm.readFor call.offset call.size with
    | none =>
        obtain ⟨same, served⟩ := mapChunk_of_readFor_none allocated read
        rw [read] at reads
        rw [same] at fmEqual
        rw [← answer] at served
        cases isMapped with
        | false => exact .refused reads fmEqual
        | true =>
            obtain ⟨accepted, stored, member, overlaps, contains⟩ := served rfl
            have inFile : call.offset.val < content.length :=
              overlaps.trans_le (tracks.inside stored member)
            rw [newChunk_eq inFile small] at contains
            obtain ⟨below, above⟩ := of_decide_eq_true contains
            exact .served reads fmEqual allocated accepted member below inFile above
    | some pair =>
        obtain ⟨chunk, answered⟩ := pair
        obtain ⟨accepted, isChunk, isRead, mapped⟩ := mapChunk_of_readFor_some allocated read
        rw [read] at reads
        rw [tracks.reader] at isRead
        have leading : answered.bytes <+: (content.drop chunk.offset).take chunk.size := by
          rw [isRead]
          exact stores.leading _ _ _
        have count : answered.count = -1 ∨ answered.count = answered.bytes.length := by
          rw [isRead]
          exact stores.count _ _ _
        rw [mapped] at fmEqual answer
        by_cases something : 0 < answered.count
        · have offset : chunk.offset = call.offset.val := congrArg BoundedChunk.offset isChunk
          have inFile : call.offset.val < content.length := by
            have length := leading.length_le
            rw [List.length_take, List.length_drop, offset] at length
            omega
          rw [newChunk_eq inFile small] at isChunk
          have nonempty : chunk.offset < chunk.last := by
            rw [isChunk]
            exact (chunkEnd_gt inFile).1
          rw [if_pos ⟨something, nonempty⟩] at fmEqual
          rw [decide_eq_true something] at answer
          subst answer
          exact .recorded reads buffer allocated accepted leading something inFile isChunk fmEqual
        · rw [if_neg fun both => something both.1] at fmEqual
          rw [decide_eq_false something] at answer
          subst answer
          exact .failed reads buffer leading something fmEqual

/-- A call without a read stores nothing. -/
theorem filled_of_noRead {call : Call} {isMapped : Bool}
    (called : watched.call call = some (next, isMapped)) (noRead : watched.readOf call = none)
    {i : Nat} : next.Filled i ↔ watched.Filled i := by
  have stored := (call_cases called).1
  rw [storedBy, noRead] at stored
  rw [Filled, stored]
  simp [Filled]

/-- A read stores what it gets. -/
theorem filled_of_read {call : Call} {isMapped : Bool}
    (called : watched.call call = some (next, isMapped)) {chunk : BoundedChunk}
    {result : ReadResult} (reads : watched.readOf call = some (chunk, result)) {i : Nat} :
    next.Filled i ↔ watched.Filled i ∨
      chunk.offset ≤ i ∧ i < chunk.offset + result.bytes.length := by
  have stored := (call_cases called).1
  rw [storedBy, reads] at stored
  rw [Filled, stored]
  simp only [Option.map_some, Option.toList_some, List.mem_append, List.mem_singleton, Filled]
  constructor
  · intro ⟨range, member, within⟩
    cases member with
    | inl old => exact .inl ⟨range, old, within⟩
    | inr new =>
        rw [new] at within
        exact .inr within
  · intro filled
    cases filled with
    | inl old =>
        obtain ⟨range, member, within⟩ := old
        exact ⟨range, .inl member, within⟩
    | inr new => exact ⟨_, .inr rfl, new⟩

/-! ## Every call -/

/-- A mapper without calls. -/
theorem tracks_new (stores : reader.Stores content) : Tracks reader content (new reader) := by
  have nothing : ∀ i, ¬ (new reader).Filled i := by
    intro i filled
    obtain ⟨range, member, -⟩ := filled
    contradiction
  unfold new PeContext.new FileMapper.new
  split
  · refine ⟨rfl, ?_, ⟨List.Pairwise.nil, nofun⟩, nofun, fun i filled => ?_⟩
    · intro allocatedSize allocated
      obtain rfl := Option.some.inj allocated
      exact ⟨stores.fileSize, by rw [List.length_replicate, stores.fileSize]⟩
    · obtain ⟨range, member, -⟩ := filled
      contradiction
  · refine ⟨rfl, nofun, ⟨List.Pairwise.nil, nofun⟩, nofun, fun i filled => ?_⟩
    obtain ⟨range, member, -⟩ := filled
    contradiction

/-- What is stored is what the file has, also after a further read. -/
theorem Tracks.store (tracks : Tracks reader content watched) {chunk : BoundedChunk}
    {bytes : ByteString} (buffer : watched.context.fm.data.length = content.length)
    (leading : bytes <+: (content.drop chunk.offset).take chunk.size) {i : Nat}
    (filled : watched.Filled i ∨ chunk.offset ≤ i ∧ i < chunk.offset + bytes.length) :
    i < content.length ∧
      (FileMapper.store watched.context.fm.data chunk.offset chunk.size bytes)[i]? =
        content[i]? := by
  obtain ⟨-, inFile, value⟩ := store_leading buffer leading
  by_cases new : chunk.offset ≤ i ∧ i < chunk.offset + bytes.length
  · rw [value, if_pos new]
    exact ⟨inFile i new.1 new.2, rfl⟩
  · rw [value, if_neg new]
    exact tracks.filled i (filled.resolve_right new)

/-- A call that reads keeps track of the file, where the map does. -/
theorem Tracks.read (tracks : Tracks reader content watched) {call : Call} {isMapped : Bool}
    (called : watched.call call = some (next, isMapped)) {chunk : BoundedChunk}
    {result : ReadResult} (reads : watched.readOf call = some (chunk, result))
    (buffer : watched.context.fm.data.length = content.length)
    (leading : result.bytes <+: (content.drop chunk.offset).take chunk.size)
    {map : List BoundedChunk} (outcome : next.context.fm = { watched.context.fm with
      data := FileMapper.store watched.context.fm.data chunk.offset chunk.size result.bytes
      reads := watched.context.fm.reads + 1
      map := map })
    (separated : Separated map) (inside : ∀ chunk ∈ map, chunk.last ≤ content.length) :
    Tracks reader content next := by
  constructor
  · rw [outcome]
    exact tracks.reader
  · intro allocatedSize allocated
    rw [outcome] at allocated ⊢
    have length := (store_leading buffer leading).1
    exact ⟨(tracks.allocated allocatedSize allocated).1, length.trans buffer⟩
  · rw [outcome]
    exact separated
  · rw [outcome]
    exact inside
  · intro i filled
    rw [outcome]
    exact tracks.store buffer leading ((filled_of_read called reads).mp filled)

/-- A call keeps track of the file. -/
theorem Tracks.call (stores : reader.Stores content) (tracks : Tracks reader content watched)
    {call : Call} {isMapped : Bool} (called : watched.call call = some (next, isMapped)) :
    Tracks reader content next := by
  cases tracks.outcome stores called with
  | refused noRead same | served noRead same =>
      constructor
      · rw [same]
        exact tracks.reader
      · rw [same]
        exact tracks.allocated
      · rw [same]
        exact tracks.separated
      · rw [same]
        exact tracks.inside
      · intro i filled
        rw [same]
        exact tracks.filled i ((filled_of_noRead called noRead).mp filled)
  | failed reads buffer leading nothing outcome =>
      exact tracks.read called reads buffer leading outcome tracks.separated tracks.inside
  | recorded reads buffer _ _ leading _ inFile isChunk outcome =>
      obtain ⟨nonempty, within⟩ := chunkEnd_gt inFile
      apply tracks.read called reads buffer leading outcome
      · apply tracks.separated.add
        rw [isChunk]
        exact nonempty
      · apply @addChunk_all (fun chunk => chunk.last ≤ content.length)
        · intro one other oneInside otherInside _
          exact max_le oneInside otherInside
        · exact tracks.inside
        · rw [isChunk]
          exact within

/-! ## Calls without gaps -/

/-- The sum in `in_bound` does not wrap around into the file, and the read leaves no
gap. -/
structure Complete (watched : WatchedMapper) (call : Call) : Prop where
  noWrap : ∀ allocatedSize, watched.context.fm.allocatedSize = some allocatedSize →
    FileMapper.inBound allocatedSize call.offset call.size = true →
      call.offset.val + call.size.val ≤ allocatedSize
  noGap : watched.NoGap call

theorem recorded_new : Recorded (new reader) := by
  intro chunk member
  have empty : (new reader).context.fm.map = [] := by
    unfold new PeContext.new FileMapper.new
    split <;> rfl
  rw [empty] at member
  contradiction

/-- A complete call records only bytes that have been stored. -/
theorem Recorded.call (stores : reader.Stores content) (tracks : Tracks reader content watched)
    (recorded : Recorded watched) {call : Call} (complete : watched.Complete call)
    {isMapped : Bool} (called : watched.call call = some (next, isMapped)) :
    Recorded next := by
  cases tracks.outcome stores called with
  | refused noRead same | served noRead same =>
      intro chunk member i below above
      rw [same] at member
      exact (filled_of_noRead called noRead).mpr (recorded chunk member i below above)
  | failed reads buffer leading nothing outcome =>
      intro chunk member i below above
      rw [outcome] at member
      exact (filled_of_read called reads).mpr (.inl (recorded chunk member i below above))
  | @recorded chunk result reads buffer _ _ leading something inFile isChunk outcome =>
      unfold Recorded
      rw [outcome]
      apply @addChunk_all (fun chunk =>
        ∀ i, chunk.offset ≤ i → i < chunk.last → next.Filled i)
      · intro first second inFirst inSecond touch i above below
        dsimp only at above below
        by_cases first.offset ≤ i ∧ i < first.last
        next inside => exact inFirst i inside.1 inside.2
        next outside => exact inSecond i (by omega) (by omega)
      · intro stored member i above below
        exact (filled_of_read called reads).mpr (.inl (recorded stored member i above below))
      · intro i above below
        apply (filled_of_read called reads).mpr
        by_cases i < chunk.offset + result.bytes.length
        next new => exact .inr ⟨above, new⟩
        next behind =>
          exact .inl (complete.noGap chunk result reads something i (by omega) below)

/-- A complete call that is answered has its bytes stored. -/
theorem Recorded.filling (stores : reader.Stores content)
    (tracks : Tracks reader content watched) (recorded : Recorded watched) {call : Call}
    (complete : watched.Complete call) (called : watched.call call = some (next, true)) :
    next.Filling content call := by
  have after := tracks.call stores called
  have recordedAfter := recorded.call stores tracks complete called
  intro i below above
  have filled : next.Filled i := by
    cases tracks.outcome stores called with
    | @served stored noRead same allocated accepted member first inFile last =>
        have within := complete.noWrap _ allocated accepted
        rw [chunkEnd] at last
        apply (filled_of_noRead called noRead).mpr
        exact recorded stored member i (by omega) (by omega)
    | @recorded chunk result reads buffer allocated accepted leading something inFile isChunk
        outcome =>
        have within := complete.noWrap _ allocated accepted
        obtain ⟨stored, member, first, last⟩ :=
          addChunk_contains watched.context.fm.map chunk
        rw [isChunk] at first last
        dsimp only [chunkEnd] at first last
        have inMap : stored ∈ next.context.fm.map := by
          rw [outcome]
          exact member
        exact recordedAfter stored inMap i (by omega) (by omega)
  exact ⟨filled, after.filled i filled⟩

/-! ## Gaps -/

/-- A call whose chunk the map has is answered without a read. -/
theorem call_of_found {call : Call} {allocatedSize : Nat} {stored : BoundedChunk}
    (direct : call.byPointer = false)
    (allocated : watched.context.fm.allocatedSize = some allocatedSize)
    (accepted : FileMapper.inBound allocatedSize call.offset call.size = true)
    (found : findChunk watched.context.fm.map
      (FileMapper.newChunk allocatedSize call.offset call.size) = some stored)
    (contains : stored.contains
      (FileMapper.newChunk allocatedSize call.offset call.size) = true) :
    watched.readOf call = none ∧ ∃ final, watched.call call = some (final, true) := by
  have reaches : call.reaches := by
    intro isPointer
    rw [direct] at isPointer
    contradiction
  have inMap : (findChunk watched.context.fm.map
      (FileMapper.newChunk allocatedSize call.offset call.size)).any (fun stored =>
        stored.contains (FileMapper.newChunk allocatedSize call.offset call.size)) = true := by
    rw [found]
    exact contains
  have answered : (watched.context.fm.mapChunk allocatedSize call.offset call.size).2 = true := by
    rw [FileMapper.mapChunk, if_pos accepted]
    dsimp only
    rw [if_pos inMap]
  constructor
  · rw [readOf, if_pos reaches, FileMapper.readFor, allocated]
    dsimp only [Option.bind_eq_bind, Option.bind_some]
    exact if_neg fun needed => needed.2 inMap
  · rw [WatchedMapper.call, Call.program_run, if_pos reaches, mapChunk_run, allocated]
    dsimp only
    rw [answered]
    exact ⟨_, rfl⟩

/-- A byte that was recorded and not stored is served from the map by a later call. -/
theorem exists_served (small : content.length < 2 ^ 64)
    (tracks : Tracks reader content watched)
    (allocated : watched.context.fm.allocatedSize = some content.length) {call : Call}
    (inFile : call.offset.val < content.length) {stored : BoundedChunk}
    (member : stored ∈ watched.context.fm.map) (below : stored.offset ≤ call.offset.val)
    (above : chunkEnd content call ≤ stored.last) {i : Nat} (first : call.offset.val ≤ i)
    (last : i < chunkEnd content call) (gap : ¬ watched.Filled i) :
    ∃ later final, watched.readOf later = none ∧ watched.call later = some (final, true) ∧
      ¬ final.Filling content later := by
  have inside := (chunkEnd_gt inFile).2
  rw [chunkEnd] at above last
  -- A window of the least size that is read, inside the chunk and with the byte in it.
  obtain ⟨start, atLeast, atMost, window, behind⟩ : ∃ start, call.offset.val ≤ start ∧ start ≤ i ∧
      start + min (content.length - start) (max (1024 * 16) (i - start + 1)) ≤
        call.offset.val + min (content.length - call.offset.val)
          (max (1024 * 16) call.size.val) ∧ i - start + 1 < 2 ^ 64 := by
    by_cases reachesEnd : content.length - call.offset.val ≤ max (1024 * 16) call.size.val
    · exact ⟨i, by omega, by omega, by omega, by omega⟩
    · refine ⟨min i (call.offset.val + max (1024 * 16) call.size.val - 1024 * 16), ?_⟩
      omega
  let later : Call := ⟨false, ⟨start, by omega⟩, ⟨i - start + 1, behind⟩⟩
  have laterInFile : later.offset.val < content.length := by
    change start < content.length
    omega
  have isChunk := newChunk_eq laterInFile small
  have laterEnd := chunkEnd_gt laterInFile
  have ends : chunkEnd content later ≤ stored.last := window.trans above
  have found : findChunk watched.context.fm.map
      (FileMapper.newChunk content.length later.offset later.size) = some stored := by
    rw [isChunk]
    exact tracks.separated.find member laterEnd.1 (below.trans atLeast) ends
  have contains : stored.contains
      (FileMapper.newChunk content.length later.offset later.size) = true := by
    rw [isChunk]
    exact decide_eq_true ⟨below.trans atLeast, ends⟩
  have accepted : FileMapper.inBound content.length later.offset later.size = true := by
    apply (FileMapper.inBound_iff _).mpr
    · change start + (i - start + 1) ≤ content.length
      omega
    · change i - start + 1 + start < 2 ^ 64
      omega
  obtain ⟨noRead, final, called⟩ := call_of_found rfl allocated accepted found contains
  refine ⟨later, final, noRead, called, fun filling => gap ?_⟩
  have upTo : i < later.offset.val + later.size.val := by
    change i < start + (i - start + 1)
    omega
  exact (filled_of_noRead called noRead).mp (filling i atMost upTo).1

/-- A call that is answered without being complete is wrong, or a later one is that is
served from the map. -/
theorem Tracks.exposed (stores : reader.Stores content)
    (tracks : Tracks reader content watched) {call : Call}
    (called : watched.call call = some (next, true)) (incomplete : ¬ watched.Complete call) :
    ¬ next.Filling content call ∨
      ∃ later final, next.readOf later = none ∧ next.call later = some (final, true) ∧
        ¬ final.Filling content later := by
  have small : content.length < 2 ^ 64 := by
    rw [← stores.fileSize]
    exact reader.fileSize_lt
  by_cases noGap : watched.NoGap call
  · have wraps : ∃ allocatedSize, watched.context.fm.allocatedSize = some allocatedSize ∧
        allocatedSize < call.offset.val + call.size.val := by
      by_contra fits
      push Not at fits
      exact incomplete ⟨fun allocatedSize allocated _ => fits allocatedSize allocated, noGap⟩
    obtain ⟨allocatedSize, allocated, beyond⟩ := wraps
    rw [(tracks.allocated allocatedSize allocated).1] at beyond
    have inFile : call.offset.val < content.length := by
      cases tracks.outcome stores called with
      | served _ _ _ _ _ _ inFile => exact inFile
      | recorded _ _ _ _ _ _ inFile => exact inFile
    refine .inl fun filling => ?_
    have outside := (filling content.length (by omega) beyond).2.1
    omega
  · refine .inr ?_
    simp only [NoGap, not_forall] at noGap
    obtain ⟨chunk, result, reads, something, i, behind, inChunk, missing⟩ := noGap
    cases tracks.outcome stores called with
    | served noRead =>
        rw [noRead] at reads
        contradiction
    | recorded same buffer allocated _ _ _ inFile isChunk outcome =>
        obtain ⟨rfl, rfl⟩ := Prod.mk.inj (Option.some.inj (reads.symm.trans same))
        obtain ⟨stored, member, below, above⟩ := addChunk_contains watched.context.fm.map chunk
        have inMap : stored ∈ next.context.fm.map := by
          rw [outcome]
          exact member
        have stillAllocated : next.context.fm.allocatedSize = some content.length := by
          rw [outcome]
          exact allocated
        rw [isChunk] at below above inChunk behind
        dsimp only at below above inChunk behind
        apply exists_served small (tracks.call stores called) stillAllocated inFile inMap below
          above (by omega) inChunk
        intro filled
        cases (filled_of_read called reads).mp filled with
        | inl old => exact missing old
        | inr new =>
            rw [isChunk] at new
            dsimp only at new
            omega

/-! ## Runs -/

theorem tracks_of_run {guard : WatchedMapper → Call → Prop} (stores : reader.Stores content)
    {calls : List Call} (run : Run step guard (new reader) calls watched) :
    Tracks reader content watched := by
  apply run.invariant (Tracks reader content) (tracks_new stores)
  intro state call next tracks _ stepped
  obtain ⟨⟨_, isMapped⟩, called, rfl⟩ := Option.map_eq_some_iff.mp stepped
  exact tracks.call stores called

theorem recorded_of_run (stores : reader.Stores content) {calls : List Call}
    (run : Run step Complete (new reader) calls watched) : Recorded watched := by
  have both := run.invariant (fun state => Tracks reader content state ∧ Recorded state)
    ⟨tracks_new stores, recorded_new⟩ (by
      intro state call next ⟨tracks, recorded⟩ complete stepped
      obtain ⟨⟨_, isMapped⟩, called, rfl⟩ := Option.map_eq_some_iff.mp stepped
      exact ⟨tracks.call stores called, recorded.call stores tracks complete called⟩)
  exact both.2

/-- In every run of complete calls, each call that returns true has its bytes filled with
those of the file; where an incomplete one returns true, it has not, or some later call
returns true from the map alone for bytes that were never stored. -/
theorem mapper_faithful (stores : reader.Stores content) :
    (∀ calls watched, Run step Complete (new reader) calls watched →
        ∀ call next, watched.Complete call → watched.call call = some (next, true) →
          next.Filling content call) ∧
      ∀ calls watched, Run step Unguarded (new reader) calls watched →
        ∀ call next, ¬ watched.Complete call → watched.call call = some (next, true) →
          ¬ next.Filling content call ∨
            ∃ later final, next.readOf later = none ∧ next.call later = some (final, true) ∧
              ¬ final.Filling content later := by
  constructor
  · intro calls watched run call next complete called
    exact (recorded_of_run stores run).filling stores (tracks_of_run stores run) complete called
  · intro calls watched run call next incomplete called
    exact (tracks_of_run stores run).exposed stores called incomplete

/-- A file of eight bytes. -/
def eightBytes : ByteString := text "mz901234"

/-- A call for all of it. -/
def wholeFile : Call := ⟨false, 0, 8⟩

theorem eightBytes_stores :
    (Reader.ofContent eightBytes (by decide)).Stores eightBytes where
  fileSize := rfl
  leading _ _ _ := List.prefix_rfl
  count _ _ _ := .inr rfl

/-- A call for the last six bytes. -/
def lastBytes : Call := ⟨false, 2, 6⟩

/-- Without short reads, the call for the whole file fills it, and a later call is answered from
the map, without a read. -/
theorem wholeFile_faithful :
    ∃ watched next,
      Run step Complete (new (Reader.ofContent eightBytes (by decide))) [wholeFile] watched ∧
        watched.readOf lastBytes = none ∧ watched.call lastBytes = some (next, true) ∧
        next.Filling eightBytes lastBytes := by
  have first : ((new (Reader.ofContent eightBytes (by decide))).call wholeFile).any (fun answer =>
      answer.1.context.fm.allocatedSize = some 8 ∧ answer.1.readOf lastBytes = none ∧
        (answer.1.call lastBytes).any Prod.snd) = true := by
    decide +kernel
  obtain ⟨⟨watched, isMapped⟩, called, facts⟩ := (Option.any_eq_true _ _).mp first
  obtain ⟨allocated, noRead, second⟩ := of_decide_eq_true facts
  obtain ⟨⟨next, laterMapped⟩, later, isTrue⟩ := (Option.any_eq_true _ _).mp second
  dsimp only at allocated noRead later isTrue
  subst isTrue
  have reads : (new (Reader.ofContent eightBytes (by decide))).readOf wholeFile =
      some (⟨0, 8⟩, ⟨8, eightBytes⟩) := by
    decide +kernel
  have firstComplete : (new (Reader.ofContent eightBytes (by decide))).Complete wholeFile := by
    constructor
    · intro allocatedSize allocated _
      obtain rfl := Option.some.inj allocated
      decide
    · intro chunk result isRead _ i behind inChunk
      obtain ⟨rfl, rfl⟩ := Prod.mk.inj (Option.some.inj (reads.symm.trans isRead))
      exact absurd inChunk (not_lt.mpr behind)
  have laterComplete : watched.Complete lastBytes := by
    constructor
    · intro allocatedSize isAllocated _
      obtain rfl := Option.some.inj (allocated.symm.trans isAllocated)
      decide
    · intro chunk result isRead
      rw [noRead] at isRead
      contradiction
  have run : Run step Complete (new (Reader.ofContent eightBytes (by decide))) [wholeFile]
      watched := by
    refine .snoc .nil firstComplete ?_
    rw [step, called, Option.map_some]
  exact ⟨watched, next, run, noRead, later,
    (mapper_faithful eightBytes_stores).1 _ watched run lastBytes next laterComplete later⟩

/-- A reader of the file that stores two bytes at most. -/
def shortReader : Reader where
  validateOpen := true
  fileSize := 8
  read _ offset size :=
    ⟨(((eightBytes.drop offset).take size).take 2).length,
      ((eightBytes.drop offset).take size).take 2⟩
  fileSize_lt := by decide

theorem shortReader_stores : shortReader.Stores eightBytes where
  fileSize := rfl
  leading _ _ _ := List.take_prefix _ _
  count _ _ _ := .inr rfl

/-- A short read is recorded as if it had got everything: the call for the whole file is
answered, and so is a later one for the missing bytes, without a read. -/
theorem short_read_recorded :
    shortReader.Stores eightBytes ∧
      ∃ next final, (new shortReader).call wholeFile = some (next, true) ∧
        ¬ next.Filling eightBytes wholeFile ∧ next.readOf lastBytes = none ∧
        next.call lastBytes = some (final, true) ∧
        ¬ final.Filling eightBytes lastBytes := by
  have first : ((new shortReader).call wholeFile).any (fun answer => answer.2 ∧
      ¬ answer.1.Filled 2 ∧ answer.1.readOf lastBytes = none ∧
      (answer.1.call lastBytes).any fun later => later.2 ∧ ¬ later.1.Filled 2) = true := by
    decide +kernel
  obtain ⟨⟨next, isMapped⟩, called, facts⟩ := (Option.any_eq_true _ _).mp first
  obtain ⟨isTrue, missing, noRead, second⟩ := of_decide_eq_true facts
  dsimp only at isTrue
  subst isTrue
  obtain ⟨⟨final, laterMapped⟩, later, laterFacts⟩ := (Option.any_eq_true _ _).mp second
  obtain ⟨laterTrue, stillMissing⟩ := of_decide_eq_true laterFacts
  dsimp only at laterTrue
  subst laterTrue
  exact ⟨shortReader_stores, next, final, called,
    fun filling => missing (filling 2 (by decide) (by decide)).1, noRead, later,
    fun filling => stillMissing (filling 2 (by decide) (by decide)).1⟩

end WatchedMapper

end Cdcm.Backend.Pe
