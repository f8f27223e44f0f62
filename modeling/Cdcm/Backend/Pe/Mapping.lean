import Cdcm.Backend.Pe.FileMapper

/-!
# Programs over mapped files

What the file mapper guarantees to a program: which fields are covered by ranges that were
mapped before, and that over a reader that returns the content of a file the covered fields
have the values of the file.  `Runs` is a judgement about programs that start in such a
state, with one rule for each way to compose programs.
-/

namespace Cdcm.Backend.Pe

open Hoare

/-! ## Ranges that cover fields -/

/-- A field lies inside a range that was mapped, and that range inside the file. -/
def Covers (fileSize : Nat) (trace : List Access) (offset size : Nat) : Prop :=
  ∃ start length, .mapped start length ∈ trace ∧ start ≤ offset ∧
    offset + size ≤ start + length ∧ start + length ≤ fileSize

/-- Each field of a trace is covered by what was mapped before it. -/
def FieldsCovered (fileSize : Nat) (trace : List Access) : Prop :=
  ∀ earlier offset size later, trace = earlier ++ .field offset size :: later →
    Covers fileSize earlier offset size

section Covering

variable {fileSize : Nat} {trace later : List Access}

theorem Covers.mono {offset size : Nat} (covers : Covers fileSize trace offset size)
    (grows : trace <+: later) : Covers fileSize later offset size := by
  obtain ⟨start, length, isMapped, within⟩ := covers
  exact ⟨start, length, grows.subset isMapped, within⟩

theorem Covers.within {offset size : Nat} (covers : Covers fileSize trace offset size) :
    offset + size ≤ fileSize := by
  obtain ⟨start, length, -, -, above, inside⟩ := covers
  omega

/-- A field of a structure is covered with it, and its position does not wrap around. -/
theorem Covers.member {pointer size : Nat} (covers : Covers fileSize trace pointer size)
    (small : fileSize < 2 ^ 64) {offset length : Nat} (fits : offset + length ≤ size) :
    Covers fileSize trace (ptrAdd pointer offset) length := by
  have within := covers.within
  have kept : ptrAdd pointer offset = pointer + offset := ptrAdd_eq (by omega)
  obtain ⟨start, total, isMapped, below, above, inside⟩ := covers
  rw [kept]
  exact ⟨start, total, isMapped, by omega, by omega, inside⟩

theorem Covers.first {pointer size : Nat} (covers : Covers fileSize trace pointer size)
    {length : Nat} (fits : length ≤ size) : Covers fileSize trace pointer length := by
  obtain ⟨start, total, isMapped, below, above, inside⟩ := covers
  exact ⟨start, total, isMapped, below, by omega, inside⟩

theorem FieldsCovered.nil : FieldsCovered fileSize [] := by
  intro earlier offset size later split
  exact absurd split (by simp)

/-- The trace stays covered when what is noted next is covered, if it is a field. -/
theorem FieldsCovered.snoc {access : Access} (covered : FieldsCovered fileSize trace)
    (last : ∀ offset size, access = .field offset size → Covers fileSize trace offset size) :
    FieldsCovered fileSize (trace ++ [access]) := by
  intro earlier offset size later split
  cases later using List.reverseRecOn with
  | nil =>
      obtain ⟨rfl, same⟩ := List.append_inj' split rfl
      exact last offset size (List.head_eq_of_cons_eq same)
  | append_singleton later final =>
      have shorter : trace = earlier ++ .field offset size :: later := by
        rw [← List.cons_append, ← List.append_assoc] at split
        exact (List.append_inj' split rfl).1
      exact covered earlier offset size later shorter

end Covering

/-! ## The chunk map -/

/-- What joining chunks that touch preserves holds of all chunks when one is added. -/
theorem addChunk_all {property : BoundedChunk → Prop}
    (join : ∀ first second : BoundedChunk, property first → property second →
      ¬ (first.last < second.offset ∨ second.last < first.offset) →
      property ⟨min first.offset second.offset, max first.last second.last⟩)
    {map : List BoundedChunk} (holds : ∀ stored ∈ map, property stored) {chunk : BoundedChunk}
    (new : property chunk) : ∀ stored ∈ addChunk chunk map, property stored := by
  induction map generalizing chunk with
  | nil =>
      intro stored member
      rw [List.mem_singleton.mp member]
      exact new
  | cons first rest ih =>
      have restHolds := fun chunk member => holds chunk (List.mem_cons_of_mem first member)
      unfold addChunk
      split
      · intro stored member
        cases List.mem_cons.mp member with
        | inl same =>
            rw [same]
            exact holds first List.mem_cons_self
        | inr later => exact ih restHolds new stored later
      split
      · intro stored member
        cases List.mem_cons.mp member with
        | inl same =>
            rw [same]
            exact new
        | inr later => exact holds stored later
      · apply ih restHolds
        exact join first chunk (holds first List.mem_cons_self) new (by omega)

/-! ## Mapping chunks -/

namespace FileMapper

theorem inBound_iff {allocatedSize offset size : Nat} (noWrap : size + offset < 2 ^ 64) :
    inBound allocatedSize offset size = true ↔ offset + size ≤ allocatedSize := by
  rw [inBound, Nat.mod_eq_of_lt noWrap, decide_eq_true_iff, Nat.add_comm]

/-- In front of the end, no size and no position wraps around. -/
theorem minimumReadSize_of_le {allocatedSize offset size : Nat} (within : offset ≤ allocatedSize)
    (small : allocatedSize < 2 ^ 64) :
    minimumReadSize allocatedSize offset size =
      min (allocatedSize - offset) (max (1024 * 16) size) := by
  have wrapped : allocatedSize + 2 ^ 64 - offset = allocatedSize - offset + 2 ^ 64 := by omega
  rw [minimumReadSize, wrapped, Nat.add_mod_right, Nat.mod_eq_of_lt (by omega)]

theorem newChunk_of_le {allocatedSize offset size : Nat} (within : offset ≤ allocatedSize)
    (small : allocatedSize < 2 ^ 64) :
    newChunk allocatedSize offset size =
      ⟨offset, offset + min (allocatedSize - offset) (max (1024 * 16) size)⟩ := by
  rw [newChunk, minimumReadSize_of_le within small, Nat.mod_eq_of_lt (by omega)]

theorem size_chunk {offset length : Nat} (small : offset + length < 2 ^ 64) :
    BoundedChunk.size ⟨offset, offset + length⟩ = length := by
  have wrapped : offset + length + 2 ^ 64 - offset = length + 2 ^ 64 := by omega
  rw [BoundedChunk.size, wrapped, Nat.add_mod_right, Nat.mod_eq_of_lt (by omega)]

theorem length_store {data bytes : ByteString} {offset size : Nat}
    (within : offset + size ≤ data.length) :
    (store data offset size bytes).length = data.length := by
  have taken : (bytes.take size).length ≤ size := List.length_take_le size bytes
  simp only [store, List.length_append, List.length_take_of_le (by omega : offset ≤ data.length),
    List.length_drop]
  omega

/-- What mapping a chunk leaves as it was, and what it answers. -/
theorem mapChunk_spec (fm : FileMapper) {allocatedSize offset size : Nat}
    (buffer : fm.data.length = allocatedSize) (small : allocatedSize < 2 ^ 64)
    (noWrap : size + offset < 2 ^ 64) :
    (fm.mapChunk allocatedSize offset size).1.reader = fm.reader ∧
      (fm.mapChunk allocatedSize offset size).1.allocatedSize = fm.allocatedSize ∧
      (fm.mapChunk allocatedSize offset size).1.data.length = allocatedSize ∧
      ((fm.mapChunk allocatedSize offset size).2 = true → offset + size ≤ allocatedSize) := by
  have bound : inBound allocatedSize offset size = true ↔ offset + size ≤ allocatedSize :=
    inBound_iff noWrap
  unfold mapChunk
  split
  · next inside =>
    have within := bound.mp inside
    rw [newChunk_of_le (by omega) small]
    dsimp only
    rw [size_chunk (by omega)]
    split
    · exact ⟨rfl, rfl, buffer, fun _ => within⟩
    · have stored : (store fm.data offset (min (allocatedSize - offset) (max (1024 * 16) size))
          (fm.reader.read fm.reads offset
            (min (allocatedSize - offset) (max (1024 * 16) size))).bytes).length =
          fm.data.length := length_store (by omega)
      split
      · exact ⟨rfl, rfl, stored.trans buffer, fun _ => within⟩
      · exact ⟨rfl, rfl, stored.trans buffer, fun _ => within⟩
  · exact ⟨rfl, rfl, buffer, fun isMapped => absurd isMapped (by simp)⟩

end FileMapper

/-! ## The content of a file -/

/-- Between two positions, the buffer has the bytes of the file. -/
def Agree (data content : ByteString) (first last : Nat) : Prop :=
  ∀ i, first ≤ i → i < last → data[i]? = content[i]?

section Content

variable {data content : ByteString}

theorem Agree.field {offset size : Nat} (agree : Agree data content offset (offset + size)) :
    field data offset size = field content offset size := by
  have same : (data.drop offset).take size = (content.drop offset).take size := by
    apply List.ext_getElem?
    intro i
    by_cases inside : i < size
    · rw [List.getElem?_take_of_lt inside, List.getElem?_take_of_lt inside,
        List.getElem?_drop, List.getElem?_drop]
      exact agree (offset + i) (by omega) (by omega)
    · rw [List.getElem?_take_eq_none (by omega), List.getElem?_take_eq_none (by omega)]
  exact congrArg littleEndian same

/-- What a read of the file leaves in the buffer. -/
theorem store_content {offset size : Nat} (lengths : data.length = content.length)
    (within : offset + size ≤ content.length) (i : Nat) :
    (FileMapper.store data offset size ((content.drop offset).take size))[i]? =
      if offset ≤ i ∧ i < offset + size then content[i]? else data[i]? := by
  have written : (((content.drop offset).take size).take size) =
      (content.drop offset).take size := by
    rw [List.take_take, Nat.min_self]
  have count : ((content.drop offset).take size).length = size := by
    rw [List.length_take, List.length_drop]
    omega
  have front : (data.take offset).length = offset := List.length_take_of_le (by omega)
  unfold FileMapper.store
  dsimp only
  rw [written, count, List.append_assoc]
  by_cases before : i < offset
  · rw [List.getElem?_append_left (by omega), List.getElem?_take_of_lt before,
      if_neg (by omega)]
  rw [List.getElem?_append_right (by omega), front]
  by_cases inside : i < offset + size
  · rw [List.getElem?_append_left (by omega), List.getElem?_take_of_lt (by omega),
      List.getElem?_drop, if_pos ⟨by omega, inside⟩, Nat.add_sub_cancel' (by omega)]
  · rw [List.getElem?_append_right (by omega), count, List.getElem?_drop, if_neg (by omega)]
    congr 1
    omega

/-- The chunks in the map lie inside the file, and have been read. -/
def Synced (content : ByteString) (fm : FileMapper) : Prop :=
  ∀ chunk ∈ fm.map, chunk.last ≤ content.length ∧ Agree fm.data content chunk.offset chunk.last

/-- A chunk that is added keeps the chunks inside the file and read. -/
theorem addChunk_agree {map : List BoundedChunk}
    (synced : ∀ chunk ∈ map, chunk.last ≤ content.length ∧
      Agree data content chunk.offset chunk.last) {chunk : BoundedChunk}
    (inside : chunk.last ≤ content.length) (agree : Agree data content chunk.offset chunk.last) :
    ∀ stored ∈ addChunk chunk map, stored.last ≤ content.length ∧
      Agree data content stored.offset stored.last := by
  apply addChunk_all _ synced ⟨inside, agree⟩
  intro first second firstSynced secondSynced touch
  refine ⟨max_le firstSynced.1 secondSynced.1, ?_⟩
  intro i above below
  dsimp only at above below
  -- The two touch, so that what lies between their ends lies in one of them.
  by_cases inFirst : first.offset ≤ i ∧ i < first.last
  · exact firstSynced.2 i inFirst.1 inFirst.2
  · exact secondSynced.2 i (by omega) (by omega)

/-- Reading keeps what has been read, and what is read agrees with the file. -/
theorem store_agree {fm : FileMapper} {offset size : Nat}
    (lengths : fm.data.length = content.length) (within : offset + size ≤ content.length)
    (synced : Synced content fm) :
    let data := FileMapper.store fm.data offset size ((content.drop offset).take size)
    (∀ i : Nat, fm.data[i]? = content[i]? → data[i]? = content[i]?) ∧
      Agree data content offset (offset + size) ∧
      ∀ chunk ∈ fm.map, chunk.last ≤ content.length ∧
        Agree data content chunk.offset chunk.last := by
  intro data
  have kept : ∀ i : Nat, fm.data[i]? = content[i]? → data[i]? = content[i]? := by
    intro i same
    rw [store_content lengths within]
    split
    · rfl
    · exact same
  refine ⟨kept, ?_, ?_⟩
  · intro i above below
    rw [store_content lengths within, if_pos ⟨above, below⟩]
  · intro chunk member
    have stands := synced chunk member
    exact ⟨stands.1, fun i above below => kept i (stands.2 i above below)⟩

/-- Mapping a chunk of a file succeeds where there is something to read, and reads it;
what was read before stays. -/
theorem mapChunk_content {fm : FileMapper} (returns : fm.reader.Returns content)
    (lengths : fm.data.length = content.length) (synced : Synced content fm)
    {offset size : Nat} (noWrap : size + offset < 2 ^ 64) :
    Synced content (fm.mapChunk content.length offset size).1 ∧
      (∀ i : Nat, fm.data[i]? = content[i]? →
        (fm.mapChunk content.length offset size).1.data[i]? = content[i]?) ∧
      ((fm.mapChunk content.length offset size).2 = true ↔
        offset + size ≤ content.length ∧ offset < content.length) ∧
      ((fm.mapChunk content.length offset size).2 = true →
        Agree (fm.mapChunk content.length offset size).1.data content offset
          (offset + size)) := by
  have bound : FileMapper.inBound content.length offset size = true ↔
      offset + size ≤ content.length := FileMapper.inBound_iff noWrap
  have short := returns.signed
  unfold FileMapper.mapChunk
  split
  case isFalse outside =>
    have beyond : ¬ offset + size ≤ content.length := fun within => outside (bound.mpr within)
    exact ⟨synced, fun _ same => same, by simp [beyond], by simp⟩
  next inside =>
  have within := bound.mp inside
  rw [FileMapper.newChunk_of_le (by omega) (by omega)]
  generalize chunkSize : min (content.length - offset) (max (1024 * 16) size) = length
  have covers : size ≤ length := by omega
  have readWithin : offset + length ≤ content.length := by omega
  dsimp only
  rw [FileMapper.size_chunk (by omega), returns.read _ _ _ readWithin]
  dsimp only
  split
  · next found =>
    obtain ⟨stored, isFound, contains⟩ := (Option.any_eq_true _ _).mp found
    have stands := synced stored (List.mem_of_find?_eq_some isFound)
    have overlaps := List.find?_some isFound
    have contained : stored.offset ≤ offset ∧ offset + length ≤ stored.last :=
      of_decide_eq_true contains
    have nonempty : offset < stored.last := (of_decide_eq_true overlaps).1
    have agree : Agree fm.data content offset (offset + size) :=
      fun i above below => stands.2 i (by omega) (by omega)
    exact ⟨synced, fun _ same => same, by simp; omega, fun _ => agree⟩
  · obtain ⟨kept, agree, chunks⟩ := store_agree lengths readWithin synced
    by_cases nonempty : 0 < length
    · rw [if_pos (by omega), if_pos (by omega)]
      exact ⟨addChunk_agree chunks readWithin agree, kept, by simp; omega,
        fun _ i above below => agree i above (by omega)⟩
    · rw [if_neg (by omega)]
      exact ⟨chunks, kept, by simp; omega, by simp⟩

end Content

/-! ## The judgement -/

/-- What holds between two operations on a reader's file. -/
structure Mapped (reader : Reader) (context : PeContext) : Prop where
  origin : context.fm.reader = reader
  allocated : context.fm.allocatedSize = some reader.fileSize
  buffer : context.fm.data.length = reader.fileSize
  fields : FieldsCovered reader.fileSize context.trace
  directories : ∀ pointers, context.pe.directories = some pointers →
    ∀ pointer ∈ pointers, Covers reader.fileSize context.trace pointer 8
  sections : ∀ pointers, context.pe.sections = some pointers →
    ∀ pointer ∈ pointers, Covers reader.fileSize context.trace pointer 40
  synced : ∀ content, reader.Returns content → Synced content context.fm
  content : ∀ content, reader.Returns content → ∀ offset size,
    .mapped offset size ∈ context.trace →
      Agree context.fm.data content offset (offset + size)

/-- How a program over an open file may stop. -/
def Guarded (reader : Reader) (reason : Stop) (context : PeContext) : Prop :=
  FieldsCovered reader.fileSize context.trace ∧ reason ≠ .undefined ∧ reason ≠ .unassigned

/-- From a context, a program reads only what is mapped; it returns as `post` says, and
stops only where `stop` holds. -/
def Runs (reader : Reader) (context : PeContext) {α : Type} (program : Method α)
    (post : α → PeContext → Prop) (stop : Stop → Prop) : Prop :=
  Triple (fun start => start = context) program
    (fun value next => Mapped reader next ∧ context.trace <+: next.trace ∧ post value next)
    (fun reason next => Guarded reader reason next ∧ stop reason)

/-- `Runs` for a program that may stop anywhere. -/
abbrev Reads (reader : Reader) (context : PeContext) {α : Type} (program : Method α)
    (post : α → PeContext → Prop) : Prop :=
  Runs reader context program post (fun _ => True)

namespace Runs

variable {reader : Reader} {context : PeContext} {α β : Type} {stop : Stop → Prop}

theorem pure {value : α} {post : α → PeContext → Prop} (mapped : Mapped reader context)
    (holds : post value context) :
    Runs reader context (Pure.pure value) post stop := by
  apply Triple.pure
  intro start same
  rw [same]
  exact ⟨mapped, List.prefix_rfl, holds⟩

theorem throw {reason : Stop} {post : α → PeContext → Prop} (mapped : Mapped reader context)
    (defined : reason ≠ .undefined ∧ reason ≠ .unassigned) (stops : stop reason) :
    Runs reader context (MonadExcept.throw reason) post stop := by
  apply Triple.throw
  intro start same
  rw [same]
  exact ⟨⟨mapped.fields, defined⟩, stops⟩

theorem bind {program : Method α} {rest : α → Method β} {Q : α → PeContext → Prop}
    {post : β → PeContext → Prop} (first : Runs reader context program Q stop)
    (second : ∀ value next, Mapped reader next → context.trace <+: next.trace →
      Q value next → Runs reader next (rest value) post stop) :
    Runs reader context (program >>= rest) post stop := by
  apply Triple.bind first
  intro value next holds
  have ran := second value next holds.1 holds.2.1 holds.2.2
  exact Triple.consequence ran (fun _ same => same)
    (fun _ _ after => ⟨after.1, holds.2.1.trans after.2.1, after.2.2⟩)
    (fun _ _ stopped => stopped) next rfl

theorem consequence {program : Method α} {stronger post : α → PeContext → Prop}
    {strongerStop : Stop → Prop} (runs : Runs reader context program stronger strongerStop)
    (returns : ∀ value next, context.trace <+: next.trace → stronger value next →
      post value next)
    (stops : ∀ reason, strongerStop reason → stop reason) :
    Runs reader context program post stop := by
  apply Triple.consequence runs
  · exact fun _ same => same
  · intro value next after
    exact ⟨after.1, after.2.1, returns value next after.2.1 after.2.2⟩
  · intro reason next stopped
    exact ⟨stopped.1, stops reason stopped.2⟩

/-- Without what is known about the value. -/
theorem ignore {program : Method α} {post : α → PeContext → Prop}
    (runs : Runs reader context program post stop) :
    Runs reader context program (fun _ _ => True) stop :=
  consequence runs (fun _ _ _ _ => trivial) (fun _ stopped => stopped)

theorem ite {condition : Prop} [Decidable condition] {yes no : Method α}
    {post : α → PeContext → Prop}
    (holds : condition → Runs reader context yes post stop)
    (fails : ¬ condition → Runs reader context no post stop) :
    Runs reader context (if condition then yes else no) post stop :=
  Triple.ite holds fails

/-- What holds in a context holds for a program that starts there. -/
theorem start {program : Method α} {pre : PeContext → Prop} {post : α → PeContext → Prop}
    (runs : ∀ next, Mapped reader next → context.trace <+: next.trace → pre next →
      Runs reader next program post stop) :
    Triple (fun next => Mapped reader next ∧ context.trace <+: next.trace ∧ pre next) program
      (fun value next => Mapped reader next ∧ context.trace <+: next.trace ∧ post value next)
      (fun reason next => Guarded reader reason next ∧ stop reason) := by
  intro next holds
  exact Triple.consequence (runs next holds.1 holds.2.1 holds.2.2) (fun _ same => same)
    (fun _ _ after => ⟨after.1, holds.2.1.trans after.2.1, after.2.2⟩)
    (fun _ _ stopped => stopped) next rfl

/-- What a program does from all that holds behind a context, it does from the context. -/
theorem of_start {program : Method α} {pre : PeContext → Prop} {post : α → PeContext → Prop}
    (triple : Triple (fun next => Mapped reader next ∧ context.trace <+: next.trace ∧ pre next)
      program
      (fun value next => Mapped reader next ∧ context.trace <+: next.trace ∧ post value next)
      (fun reason next => Guarded reader reason next ∧ stop reason))
    (mapped : Mapped reader context) (holds : pre context) :
    Runs reader context program post stop := by
  apply Triple.consequence triple
  · intro state same
    rw [same]
    exact ⟨mapped, List.prefix_rfl, holds⟩
  · exact fun _ _ after => after
  · exact fun _ _ stopped => stopped

/-- What each turn preserves holds behind a loop. -/
theorem forUpTo {limit : β → Method Nat} {body : Nat → β → Method β}
    (inv : β → PeContext → Prop) (mapped : Mapped reader context)
    (limits : ∀ locals next, Mapped reader next → context.trace <+: next.trace →
      inv locals next → Runs reader next (limit locals) (fun _ after => inv locals after) stop)
    (turn : ∀ index locals next, Mapped reader next → context.trace <+: next.trace →
      inv locals next → Runs reader next (body index locals) inv stop)
    {turns first : Nat} {locals : β} (holds : inv locals context) :
    Runs reader context (Hoare.forUpTo limit body turns first locals) inv stop := by
  have loop := Triple.forUpTo
    (fun locals next => Mapped reader next ∧ context.trace <+: next.trace ∧ inv locals next)
    (fun locals => start (limits locals)) (fun index locals => start (turn index locals))
    turns first locals
  exact of_start loop mapped holds

/-- A loop with a limit that stays makes all its turns. -/
theorem forUpTo_all {limit : β → Method Nat} {body : Nat → β → Method β} (last : Nat)
    (inv : Nat → β → PeContext → Prop) (mapped : Mapped reader context)
    (limits : ∀ index locals next, Mapped reader next → context.trace <+: next.trace →
      inv index locals next → Runs reader next (limit locals)
        (fun result after => result = last ∧ inv index locals after) stop)
    (turn : ∀ index locals next, index ≤ last → Mapped reader next →
      context.trace <+: next.trace → inv index locals next →
      Runs reader next (body index locals) (inv (index + 1)) stop)
    {turns first : Nat} (enough : last < first + turns) (within : first ≤ last + 1)
    {locals : β} (holds : inv first locals context) :
    Runs reader context (Hoare.forUpTo limit body turns first locals) (inv (last + 1)) stop := by
  have loop := Triple.forUpTo_all last
    (fun index locals next =>
      Mapped reader next ∧ context.trace <+: next.trace ∧ inv index locals next)
    (fun index locals => Triple.consequence (start (limits index locals))
      (fun _ same => same)
      (fun _ _ after => ⟨after.2.2.1, after.1, after.2.1, after.2.2.2⟩)
      (fun _ _ stopped => stopped))
    (fun index locals bound => start (turn index locals · bound))
    enough within locals
  exact of_start loop mapped holds

end Runs

/-! ## Primitives -/

section Primitives

variable {reader : Reader} {context : PeContext} {stop : Stop → Prop}

/-- The trace may grow by what is covered, and the file mapper may read more. -/
theorem Mapped.next (mapped : Mapped reader context) {fm : FileMapper}
    {trace : List Access} (kept : fm.reader = reader)
    (allocated : fm.allocatedSize = some reader.fileSize)
    (buffer : fm.data.length = reader.fileSize) (fields : FieldsCovered reader.fileSize trace)
    (grows : context.trace <+: trace)
    (synced : ∀ content, reader.Returns content → Synced content fm)
    (content : ∀ content, reader.Returns content → ∀ offset size,
      .mapped offset size ∈ trace → Agree fm.data content offset (offset + size)) :
    Mapped reader { context with fm := fm, trace := trace } where
  origin := kept
  allocated := allocated
  buffer := buffer
  fields := fields
  directories pointers isSome pointer member :=
    (mapped.directories pointers isSome pointer member).mono grows
  sections pointers isSome pointer member :=
    (mapped.sections pointers isSome pointer member).mono grows
  synced := synced
  content := content

/-- A covered field is read, and has the value that it has in the file. -/
theorem deref_runs {offset size : Nat} (mapped : Mapped reader context)
    (covers : Covers reader.fileSize context.trace offset size) :
    Runs reader context (deref offset size) (fun value _ => value < 256 ^ size ∧
      ∀ content, reader.Returns content → value = field content offset size) stop := by
  intro start same
  subst same
  have within : offset + size ≤ start.fm.data.length := by
    rw [mapped.buffer]
    exact covers.within
  have grows : start.trace <+: start.trace ++ [.field offset size] := List.prefix_append ..
  have fields : FieldsCovered reader.fileSize (start.trace ++ [.field offset size]) := by
    apply mapped.fields.snoc
    intro offset' size' same
    cases same
    exact covers
  have content : ∀ content, reader.Returns content → ∀ offset' size',
      .mapped offset' size' ∈ start.trace ++ [.field offset size] →
        Agree start.fm.data content offset' (offset' + size') := by
    intro content returns offset' size' member
    apply mapped.content content returns
    simpa using member
  rw [deref_run, if_pos within]
  refine ⟨mapped.next mapped.origin mapped.allocated mapped.buffer fields grows mapped.synced
    content, grows, field_lt _ offset size, ?_⟩
  intro content returns
  obtain ⟨first, length, isMapped, below, above, -⟩ := covers
  have agree := mapped.content content returns first length isMapped
  exact Agree.field fun i low high => agree i (by omega) (by omega)

/-- A chunk is mapped exactly when the file has something to read there. -/
theorem mapChunk_runs {offset size : Nat} (mapped : Mapped reader context)
    (noWrap : size + offset < 2 ^ 64) :
    Runs reader context (mapChunk offset size) (fun isMapped next =>
      (isMapped = true → Covers reader.fileSize next.trace offset size) ∧
        ∀ content, reader.Returns content →
          (isMapped = true ↔ offset + size ≤ content.length ∧ offset < content.length))
      stop := by
  intro start same
  subst same
  obtain ⟨kept, allocated, buffer, inside⟩ :=
    start.fm.mapChunk_spec mapped.buffer reader.fileSize_lt noWrap
  have reads : ∀ content, reader.Returns content →
      Synced content (start.fm.mapChunk reader.fileSize offset size).1 ∧
        (∀ i : Nat, start.fm.data[i]? = content[i]? →
          (start.fm.mapChunk reader.fileSize offset size).1.data[i]? = content[i]?) ∧
        ((start.fm.mapChunk reader.fileSize offset size).2 = true ↔
          offset + size ≤ content.length ∧ offset < content.length) ∧
        ((start.fm.mapChunk reader.fileSize offset size).2 = true →
          Agree (start.fm.mapChunk reader.fileSize offset size).1.data content offset
            (offset + size)) := by
    intro content returns
    have lengths := mapped.buffer.trans returns.fileSize
    have same : start.fm.reader.Returns content := by rwa [mapped.origin]
    rw [returns.fileSize]
    exact mapChunk_content same lengths (mapped.synced content returns) noWrap
  have earlier : ∀ content, reader.Returns content → ∀ offset' size',
      .mapped offset' size' ∈ start.trace →
        Agree (start.fm.mapChunk reader.fileSize offset size).1.data content offset'
          (offset' + size') := by
    intro content returns offset' size' member i above below
    exact (reads content returns).2.1 i
      (mapped.content content returns offset' size' member i above below)
  have synced := fun content returns => (reads content returns).1
  have answers := fun content returns => (reads content returns).2.2.1
  rw [mapChunk_run, mapped.allocated]
  dsimp only
  cases isMapped : (start.fm.mapChunk reader.fileSize offset size).2 with
  | false =>
      rw [if_neg Bool.false_ne_true]
      rw [isMapped] at answers
      exact ⟨mapped.next (kept.trans mapped.origin) (allocated.trans mapped.allocated) buffer
        mapped.fields List.prefix_rfl synced earlier, List.prefix_rfl,
        fun claimed => absurd claimed Bool.false_ne_true, answers⟩
  | true =>
      have grows : start.trace <+: start.trace ++ [.mapped offset size] :=
        List.prefix_append ..
      have fields : FieldsCovered reader.fileSize (start.trace ++ [.mapped offset size]) := by
        apply mapped.fields.snoc
        intro offset' size' same
        cases same
      have covers : Covers reader.fileSize (start.trace ++ [.mapped offset size]) offset size :=
        ⟨offset, size, by simp, le_rfl, le_rfl, inside isMapped⟩
      have content : ∀ content, reader.Returns content → ∀ offset' size',
          .mapped offset' size' ∈ start.trace ++ [.mapped offset size] →
            Agree (start.fm.mapChunk reader.fileSize offset size).1.data content offset'
              (offset' + size') := by
        intro content returns offset' size' member
        cases List.mem_append.mp member with
        | inl before => exact earlier content returns offset' size' before
        | inr now =>
            cases List.mem_singleton.mp now
            exact (reads content returns).2.2.2 isMapped
      rw [if_pos rfl]
      rw [isMapped] at answers
      exact ⟨mapped.next (kept.trans mapped.origin) (allocated.trans mapped.allocated) buffer
        fields grows synced content, grows, fun _ => covers, answers⟩

/-- A pointer in front of the buffer is refused; nothing wraps around. -/
theorem mapChunkByPointer_runs {pointer size : Nat} (mapped : Mapped reader context)
    (small : size ≤ 2 ^ 63) :
    Runs reader context (mapChunkByPointer pointer size) (fun isMapped next =>
      (isMapped = true → Covers reader.fileSize next.trace pointer size) ∧
        ∀ content, reader.Returns content →
          (isMapped = true ↔ pointer + size ≤ content.length ∧ pointer < content.length))
      stop := by
  apply Runs.ite
  · intro positive
    exact mapChunk_runs mapped (by omega)
  · intro negative
    apply Runs.pure mapped
    refine ⟨fun claimed => absurd claimed Bool.false_ne_true, fun content returns => ?_⟩
    have short := returns.signed
    simp only [Bool.false_eq_true, false_iff]
    omega

/-- What is required is mapped. The program stops only where the file has nothing to read. -/
theorem require_runs {reason : Stop} {pointer size : Nat} (mapped : Mapped reader context)
    (defined : reason ≠ .undefined ∧ reason ≠ .unassigned) (small : size ≤ 2 ^ 63)
    (stops : (∀ content, reader.Returns content →
      ¬ (pointer + size ≤ content.length ∧ pointer < content.length)) → stop reason) :
    Runs reader context (require reason pointer size) (fun _ next =>
      Covers reader.fileSize next.trace pointer size) stop := by
  apply Runs.bind (mapChunkByPointer_runs mapped small)
  intro isMapped next mapped _ ⟨covers, answers⟩
  apply Runs.ite
  · exact fun claimed => Runs.pure mapped (covers claimed)
  · intro failed
    apply Runs.throw mapped defined
    apply stops
    intro content returns within
    exact failed ((answers content returns).mpr within)

theorem get_runs (mapped : Mapped reader context) :
    Runs reader context get (fun value next => value = next ∧ next = context) stop := by
  intro start same
  subst same
  exact ⟨mapped, List.prefix_rfl, rfl, rfl⟩

theorem modifyPe_runs {change : PeFile → PeFile} (mapped : Mapped reader context)
    (directories : ∀ pointers, (change context.pe).directories = some pointers →
      ∀ pointer ∈ pointers, Covers reader.fileSize context.trace pointer 8)
    (sections : ∀ pointers, (change context.pe).sections = some pointers →
      ∀ pointer ∈ pointers, Covers reader.fileSize context.trace pointer 40) :
    Runs reader context (modifyPe change) (fun _ _ => True) stop := by
  intro start same
  subst same
  exact ⟨⟨mapped.origin, mapped.allocated, mapped.buffer, mapped.fields, directories, sections,
    mapped.synced, mapped.content⟩, List.prefix_rfl, trivial⟩

end Primitives

/-- An open file is mapped from the start. -/
theorem mapped_new (reader : Reader) (isOpen : reader.validateOpen = true) :
    Mapped reader (PeContext.new reader) := by
  have same : PeContext.new reader =
      ⟨⟨reader, some reader.fileSize, List.replicate reader.fileSize 0, [], 0⟩,
        ⟨0, none, 0, none, 0, 0⟩, []⟩ := by
    simp [PeContext.new, FileMapper.new, isOpen]
  rw [same]
  exact ⟨rfl, rfl, List.length_replicate, FieldsCovered.nil, nofun, nofun, nofun, nofun⟩

end Cdcm.Backend.Pe
