import Cdcm.Backend.Pe.Faithfulness

/-!
# Positioned reads

`smb_client::read` with its buffer: every call of `smbc_read` stores what it gets behind what
the calls before have stored.  The stores and the results of the calls are noted.
-/

namespace Cdcm.Backend.Smb

open Pe

/-! ## The code -/

/-- A buffer, with the places and lengths of the stores into it, and the results of the calls
of `smbc_read`. -/
structure Transfer where
  dest : Nat → Byte
  stores : List (Nat × Nat)
  calls : List (Option ByteString)

/-- Store bytes from a place on. -/
def storeAt (dest : Nat → Byte) (place : Nat) (bytes : ByteString) : Nat → Byte :=
  fun i => if place ≤ i then bytes.getD (i - place) (dest i) else dest i

/-- A call of `smbc_read` for the rest of the buffer from `curpos` on. -/
def Transfer.receive (transfer : Transfer) (curpos : Nat) (bytes : ByteString) : Transfer where
  dest := storeAt transfer.dest curpos bytes
  stores := transfer.stores ++ [(curpos, bytes.length)]
  calls := transfer.calls ++ [some bytes]

/-- A size as an `ssize_t`. -/
def toSsize (size : Nat) : Int := if size < 2 ^ 63 then size else size - 2 ^ 64

/-- The loop of `smb_client::read`. -/
def clientLoop (file : RemoteFile) (call offset size curpos : Nat) (bytesread : Int)
    (transfer : Transfer) : Int × Transfer :=
  if curpos < size ∧ bytesread > 0 then
    match file.read call transfer.calls.length (offset + curpos) (size - curpos) with
    | none => (-1, { transfer with calls := transfer.calls ++ [none] })
    | some bytes =>
        clientLoop file call offset size (curpos + bytes.length) bytes.length
          (transfer.receive curpos bytes)
  else (toSsize curpos, transfer)
termination_by (size - curpos, bytesread.toNat)
decreasing_by
  rename_i inside
  cases bytes with
  | nil => exact Prod.Lex.right _ (by simpa using inside.2)
  | cons byte more =>
      apply Prod.Lex.left
      rw [List.length_cons]
      omega

/-- `smb_client::read`. -/
def clientRead (file : RemoteFile) (call offset size : Nat) (dest : Nat → Byte) :
    Int × Transfer :=
  if file.seek offset < 0 then (-1, ⟨dest, [], []⟩)
  else clientLoop file call offset size 0 1 ⟨dest, [], []⟩

/-! ## Stores -/

/-- A place in a part of the buffer that has been stored. -/
def IsStored (stores : List (Nat × Nat)) (place : Nat) : Prop :=
  ∃ store ∈ stores, store.1 ≤ place ∧ place < store.1 + store.2

theorem storeAt_of_lt {dest : Nat → Byte} {curpos place : Nat} {bytes : ByteString}
    (before : place < curpos) : storeAt dest curpos bytes place = dest place := by
  rw [storeAt, if_neg (Nat.not_le.mpr before)]

/-- The bytes that have been stored are in their places. -/
theorem storeAt_of_le {dest : Nat → Byte} {curpos place : Nat} {bytes : ByteString}
    (behind : curpos ≤ place) (inside : place < curpos + bytes.length) :
    bytes[place - curpos]? = some (storeAt dest curpos bytes place) := by
  have index : place - curpos < bytes.length := by omega
  rw [storeAt, if_pos behind, List.getD_eq_getElem?_getD, List.getElem?_eq_getElem index]
  rfl

/-- Nothing else is stored. -/
theorem storeAt_of_ge {dest : Nat → Byte} {curpos place : Nat} {bytes : ByteString}
    (outside : curpos + bytes.length ≤ place) : storeAt dest curpos bytes place = dest place := by
  have beyond : bytes.length ≤ place - curpos := by omega
  rw [storeAt, if_pos (by omega), List.getD_eq_default _ _ beyond]

/-- The bytes of a range of a file lie in its content. -/
theorem getElem?_of_prefix {content bytes : ByteString} {position count i : Nat}
    (got : bytes <+: (content.drop position).take count) (inside : i < bytes.length) :
    content[position + i]? = bytes[i]? := by
  obtain ⟨behind, whole⟩ := got
  have small : i < count := by
    have length := congrArg List.length whole
    rw [List.length_append, List.length_take] at length
    omega
  rw [← List.getElem?_drop, ← List.getElem?_take_of_lt small, ← whole,
    List.getElem?_append_left inside]

theorem length_le_of_prefix {content bytes : ByteString} {position count : Nat}
    (got : bytes <+: (content.drop position).take count) : bytes.length ≤ count := by
  have length := got.length_le
  rw [List.length_take] at length
  omega

/-! ## The loop -/

/-- The file from an offset on is in the buffer, up to some place. -/
def Holds (content : ByteString) (offset : Nat) (dest : Nat → Byte) (upTo : Nat) : Prop :=
  ∀ i < upTo, content[offset + i]? = some (dest i)

/-- What holds in front of a turn of the loop, which began with a buffer. -/
structure Underway (content : ByteString) (offset size : Nat) (start : Nat → Byte)
    (curpos : Nat) (bytesread : Int) (transfer : Transfer) : Prop where
  bounded : curpos ≤ size
  holds : Holds content offset transfer.dest curpos
  inside : ∀ store ∈ transfer.stores, store.1 + store.2 ≤ size
  frame : ∀ place, ¬IsStored transfer.stores place → transfer.dest place = start place
  succeeded : none ∉ transfer.calls
  ahead : 0 < bytesread → transfer.calls.length ≤ curpos
  ended : bytesread ≤ 0 → some [] ∈ transfer.calls ∧ transfer.calls.length ≤ size

/-- What holds of a result: no store beside the size, -1 exactly for a call that has failed,
and otherwise as many bytes of the file as the size, unless the server has reported its end. -/
structure Delivered (content : ByteString) (offset size : Nat) (start : Nat → Byte)
    (result : Int × Transfer) : Prop where
  inside : ∀ store ∈ result.2.stores, store.1 + store.2 ≤ size
  frame : ∀ place, ¬IsStored result.2.stores place → result.2.dest place = start place
  bounded : result.2.calls.length ≤ size
  failed_iff : result.1 = -1 ↔ none ∈ result.2.calls
  delivered : result.1 ≠ -1 → ∃ r : Nat, result.1 = r ∧ r ≤ size ∧
    Holds content offset result.2.dest r ∧ (r = size ∨ some [] ∈ result.2.calls)

/-- Behind the bytes of the file there are none that the loop could have counted. -/
theorem Holds.lt {content : ByteString} {offset : Nat} {dest : Nat → Byte} {upTo : Nat}
    (holds : Holds content offset dest upTo) (small : content.length < 2 ^ 63) :
    upTo < 2 ^ 63 := by
  cases upTo with
  | zero => decide
  | succ last =>
      have there := holds last (Nat.lt_succ_self last)
      have inside := (List.getElem?_eq_some_iff.mp there).1
      omega

variable {file : RemoteFile} {content : ByteString} {call offset size : Nat}
  {start : Nat → Byte}

/-- A turn that gets bytes keeps the invariant of the loop. -/
theorem Underway.receive (reads : file.Reads content) {curpos : Nat} {bytesread : Int}
    {transfer : Transfer} (underway : Underway content offset size start curpos bytesread transfer)
    (more : curpos < size ∧ bytesread > 0) {bytes : ByteString}
    (got : file.read call transfer.calls.length (offset + curpos) (size - curpos) = some bytes) :
    Underway content offset size start (curpos + bytes.length) bytes.length
      (transfer.receive curpos bytes) := by
  have range := reads _ _ _ _ _ got
  have length := length_le_of_prefix range
  have calls := underway.ahead more.2
  refine ⟨by omega, ?_, ?_, ?_, ?_, ?_, ?_⟩
  · intro i below
    by_cases before : i < curpos
    · rw [underway.holds i before]
      exact congrArg some (storeAt_of_lt before).symm
    · have behind := Nat.not_lt.mp before
      have place := getElem?_of_prefix range (i := i - curpos) (by omega)
      rw [Nat.add_assoc, Nat.add_sub_cancel' behind] at place
      rw [place]
      exact storeAt_of_le behind below
  · intro store member
    cases List.mem_append.mp member with
    | inl earlier => exact underway.inside store earlier
    | inr here =>
        obtain rfl := List.mem_singleton.mp here
        change curpos + bytes.length ≤ size
        omega
  · intro place free
    have unstored : ¬IsStored transfer.stores place := fun ⟨store, member, covers⟩ =>
      free ⟨store, List.mem_append_left _ member, covers⟩
    rw [← underway.frame place unstored]
    have outside : place < curpos ∨ curpos + bytes.length ≤ place := by
      by_contra within
      push Not at within
      exact free ⟨(curpos, bytes.length), List.mem_append_right _ (List.mem_singleton.mpr rfl),
        within⟩
    cases outside with
    | inl before => exact storeAt_of_lt before
    | inr behind => exact storeAt_of_ge behind
  · intro member
    cases List.mem_append.mp member with
    | inl earlier => exact underway.succeeded earlier
    | inr here => simp at here
  · intro positive
    change (transfer.calls ++ [some bytes]).length ≤ _
    rw [List.length_append, List.length_singleton]
    omega
  · intro none
    have empty : bytes = [] := List.length_eq_zero_iff.mp (by omega)
    change some [] ∈ transfer.calls ++ [some bytes] ∧
      (transfer.calls ++ [some bytes]).length ≤ size
    rw [empty, List.length_append, List.length_singleton]
    exact ⟨List.mem_append_right _ (List.mem_singleton.mpr rfl), by omega⟩

/-- A turn that fails ends the loop. -/
theorem Underway.fail {curpos : Nat} {bytesread : Int} {transfer : Transfer}
    (underway : Underway content offset size start curpos bytesread transfer)
    (more : curpos < size ∧ bytesread > 0) :
    Delivered content offset size start
      (-1, { transfer with calls := transfer.calls ++ [none] }) := by
  have calls := underway.ahead more.2
  refine ⟨underway.inside, underway.frame, ?_, by simp, fun failed => absurd rfl failed⟩
  change (transfer.calls ++ [none]).length ≤ size
  rw [List.length_append, List.length_singleton]
  omega

/-- The loop ends when the buffer is full or nothing has been read. -/
theorem Underway.finish (small : content.length < 2 ^ 63) {curpos : Nat} {bytesread : Int}
    {transfer : Transfer} (underway : Underway content offset size start curpos bytesread transfer)
    (last : ¬(curpos < size ∧ bytesread > 0)) :
    Delivered content offset size start (toSsize curpos, transfer) := by
  have count : toSsize curpos = curpos := if_pos (underway.holds.lt small)
  have bounded := underway.bounded
  refine ⟨underway.inside, underway.frame, ?_, ?_, fun _ => ⟨curpos, count, bounded,
    underway.holds, ?_⟩⟩
  · by_cases positive : 0 < bytesread
    · exact (underway.ahead positive).trans bounded
    · exact (underway.ended (Int.not_lt.mp positive)).2
  · have succeeded := underway.succeeded
    simp only [count, succeeded, iff_false]
    omega
  · by_cases positive : 0 < bytesread
    · left
      by_contra short
      exact last ⟨by omega, positive⟩
    · exact .inr (underway.ended (Int.not_lt.mp positive)).1

/-- The loop delivers, from any turn on. -/
theorem clientLoop_delivered (reads : file.Reads content) (small : content.length < 2 ^ 63)
    (curpos : Nat) (bytesread : Int) (transfer : Transfer)
    (underway : Underway content offset size start curpos bytesread transfer) :
    Delivered content offset size start
      (clientLoop file call offset size curpos bytesread transfer) := by
  fun_induction clientLoop file call offset size curpos bytesread transfer with
  | case1 curpos bytesread transfer more fails => exact underway.fail more
  | case2 curpos bytesread transfer more bytes got ih =>
      exact ih (underway.receive reads more got)
  | case3 curpos bytesread transfer last => exact underway.finish small last

/-- The loop counts as the one without a buffer does. -/
theorem clientLoop_count (reads : file.Reads content) (small : content.length < 2 ^ 63)
    (curpos : Nat) (bytesread : Int) (transfer : Transfer)
    (underway : Underway content offset size start curpos bytesread transfer)
    (positive : 0 < bytesread) (bytes : ByteString) (length : bytes.length = curpos) :
    (clientLoop file call offset size curpos bytesread transfer).1 =
      (file.readLoop call offset transfer.calls.length bytes (size - curpos)).count := by
  fun_induction clientLoop file call offset size curpos bytesread transfer generalizing bytes with
  | case1 curpos bytesread transfer more fails =>
      rw [RemoteFile.readLoop, if_neg (by omega), length, fails]
  | case2 curpos bytesread transfer more got range ih =>
      have next := underway.receive reads more range
      rw [RemoteFile.readLoop, if_neg (by omega), length, range]
      cases got with
      | nil =>
          rw [clientLoop, if_neg (by simp)]
          exact if_pos (underway.holds.lt small)
      | cons byte got =>
          have counted := ih next (by simp) (bytes ++ byte :: got) (by simp [length])
          rw [counted]
          have turn : (transfer.receive curpos (byte :: got)).calls.length =
              transfer.calls.length + 1 := by
            simp [Transfer.receive]
          simp only [turn, List.length_cons, Nat.sub_sub]
  | case3 curpos bytesread transfer last =>
      rw [RemoteFile.readLoop, if_pos (by omega), toSsize, if_pos (underway.holds.lt small), length]

/-! ## The whole read -/

/-- In front of the first turn nothing has been stored. -/
theorem Underway.started (content : ByteString) (offset size : Nat) (dest : Nat → Byte) :
    Underway content offset size dest 0 1 ⟨dest, [], []⟩ :=
  ⟨Nat.zero_le _, by simp [Holds], by simp, by simp, by simp, by simp, by simp⟩

/-- The reads of the file mapper count as those with a buffer do. -/
theorem clientRead_count (reads : file.Reads content) (small : content.length < 2 ^ 63)
    (call offset size : Nat) (dest : Nat → Byte) :
    (clientRead file call offset size dest).1 = (file.smbRead call offset size).count := by
  rw [clientRead, RemoteFile.smbRead]
  split
  · rfl
  · exact clientLoop_count reads small 0 1 _ (.started content offset size dest) (by decide) [] rfl

/-- `smb_client::read` is a positioned read: it stores nothing beside the size, makes at most
as many calls as the size, returns -1 exactly when the seek or a call fails, and otherwise has
read as much as the size, unless the server has reported the end of the file. -/
theorem clientRead_positioned (reads : file.Reads content) (small : content.length < 2 ^ 63)
    (call offset size : Nat) (dest : Nat → Byte) :
    let (count, transfer) := clientRead file call offset size dest
    (∀ store ∈ transfer.stores, store.1 + store.2 ≤ size) ∧
      (∀ place, ¬IsStored transfer.stores place → transfer.dest place = dest place) ∧
      transfer.calls.length ≤ size ∧
      (count = -1 ↔ file.seek offset < 0 ∨ none ∈ transfer.calls) ∧
      (count ≠ -1 → ∃ r : Nat, count = r ∧ r ≤ size ∧ Holds content offset transfer.dest r ∧
        (r = size ∨ some [] ∈ transfer.calls)) := by
  rw [clientRead]
  by_cases sought : file.seek offset < 0
  · simp [sought]
  · have delivered := @clientLoop_delivered _ _ call _ _ _ reads small 0 1 _
      (.started content offset size dest)
    rw [if_neg sought]
    refine ⟨delivered.inside, delivered.frame, delivered.bounded, ?_, delivered.delivered⟩
    rw [delivered.failed_iff, or_iff_right sought]

/-! ## Complete files -/

/-- A server that seeks and reads without errors, and reports the end of the file at the end
only. -/
structure Complete (file : RemoteFile) (content : ByteString) : Prop where
  reads : file.Reads content
  seeks : ∀ offset < 2 ^ 63, 0 ≤ file.seek offset
  answers : ∀ call turn position size, ∃ bytes, file.read call turn position size = some bytes ∧
    (bytes = [] → size = 0 ∨ content.length ≤ position)

/-- The loop over a complete file reads up to the size or to the end of the file. -/
theorem clientLoop_complete (complete : Complete file content) (small : content.length < 2 ^ 63)
    (curpos : Nat) (bytesread : Int) (transfer : Transfer)
    (underway : Underway content offset size start curpos bytesread transfer)
    (end_ : bytesread ≤ 0 → content.length ≤ offset + curpos) :
    ∃ r : Nat, (clientLoop file call offset size curpos bytesread transfer).1 = r ∧
      (r = size ∨ content.length ≤ offset + r) := by
  fun_induction clientLoop file call offset size curpos bytesread transfer with
  | case1 curpos bytesread transfer more fails =>
      obtain ⟨bytes, got, _⟩ :=
        complete.answers call transfer.calls.length (offset + curpos) (size - curpos)
      rw [fails] at got
      contradiction
  | case2 curpos bytesread transfer more bytes got ih =>
      refine ih (underway.receive complete.reads more got) fun none => ?_
      have empty : bytes = [] := List.length_eq_zero_iff.mp (by omega)
      obtain ⟨other, same, atEnd⟩ :=
        complete.answers call transfer.calls.length (offset + curpos) (size - curpos)
      rw [got, Option.some.injEq] at same
      have reported := (atEnd (same ▸ empty)).resolve_left (by omega)
      simpa [empty] using reported
  | case3 curpos bytesread transfer last =>
      refine ⟨curpos, if_pos (underway.holds.lt small), ?_⟩
      have bounded := underway.bounded
      by_cases positive : 0 < bytesread
      · left
        by_contra short
        exact last ⟨by omega, positive⟩
      · exact .inr (end_ (Int.not_lt.mp positive))

/-- A read of a complete file stores the whole range. -/
theorem clientRead_complete (complete : Complete file content) (small : content.length < 2 ^ 63)
    (call : Nat) {offset : Nat} (reachable : offset < 2 ^ 63) (size : Nat) (dest : Nat → Byte) :
    (clientRead file call offset size dest).1 ≠ -1 ∧
      (List.range (clientRead file call offset size dest).1.toNat).map
        (clientRead file call offset size dest).2.dest = (content.drop offset).take size := by
  have sought := Int.not_lt.mpr (complete.seeks offset reachable)
  have started := Underway.started content offset size dest
  have delivered := @clientLoop_delivered _ _ call _ _ _ complete.reads small 0 1 _ started
  obtain ⟨r, count, far⟩ := @clientLoop_complete _ _ call _ _ _ complete small 0 1 _ started
    (by simp)
  rw [clientRead, if_neg sought]
  have succeeded : (clientLoop file call offset size 0 1 ⟨dest, [], []⟩).1 ≠ -1 := by
    rw [count]
    omega
  obtain ⟨r', count', bounded, holds, _⟩ := delivered.delivered succeeded
  rw [count, Nat.cast_inj] at count'
  obtain rfl := count'
  refine ⟨succeeded, ?_⟩
  rw [count, Int.toNat_natCast]
  apply List.ext_getElem?
  intro i
  by_cases below : i < r
  · rw [List.getElem?_map, List.getElem?_range below, List.getElem?_take_of_lt (by omega),
      List.getElem?_drop, holds i below]
    rfl
  · have short : ((content.drop offset).take size).length ≤ i := by
      rw [List.length_take, List.length_drop]
      omega
    rw [List.getElem?_eq_none short, List.getElem?_eq_none (by simpa using below)]

/-- A server that gets three bytes in the first turn, and then up to two. -/
def unevenFile (content : ByteString) : RemoteFile where
  seek offset := offset
  read _ turn position size :=
    some ((content.drop position).take (min size (if turn = 0 then 3 else 2)))

theorem unevenFile_reads (content : ByteString) : (unevenFile content).Reads content := by
  intro call turn position size bytes got
  obtain rfl := Option.some.inj got
  exact List.take_prefix_take_left (Nat.min_le_left _ _)

/-- What a buffer holds behind two calls. -/
def twoCalls : Transfer :=
  ((⟨fun _ => 0, [], []⟩ : Transfer).receive 0 (text "bcd")).receive 3 (text "ef")

/-- Five bytes, in two calls. -/
theorem unevenFile_read :
    clientRead (unevenFile (text "abcdefgh")) 0 1 5 (fun _ => 0) = (5, twoCalls) := by
  have first : (unevenFile (text "abcdefgh")).read 0 0 1 5 = some (text "bcd") := by
    decide +kernel
  have second : (unevenFile (text "abcdefgh")).read 0 1 4 2 = some (text "ef") := by
    decide +kernel
  have seeks : ¬(unevenFile (text "abcdefgh")).seek 1 < 0 := by decide
  have three : (text "bcd").length = 3 := by decide
  have two : (text "ef").length = 2 := by decide
  rw [clientRead, if_neg seeks, clientLoop, if_pos (by decide)]
  simp only [List.length_nil, Nat.add_zero, Nat.sub_zero, first, three, Nat.zero_add]
  rw [clientLoop, if_pos (by decide)]
  simp only [Transfer.receive, List.nil_append, List.length_singleton, Nat.reduceAdd,
    Nat.reduceSub, second, two]
  rw [clientLoop, if_neg (by decide)]
  rfl

/-- A read over a partial one: five bytes of the file are in their places. -/
theorem unevenFile_positioned :
    (∀ store ∈ twoCalls.stores, store.1 + store.2 ≤ 5) ∧
      (∀ place, ¬IsStored twoCalls.stores place → twoCalls.dest place = 0) ∧
      twoCalls.calls.length ≤ 5 ∧ none ∉ twoCalls.calls ∧
      Holds (text "abcdefgh") 1 twoCalls.dest 5 := by
  have positioned := clientRead_positioned (unevenFile_reads (text "abcdefgh")) (by decide) 0 1 5
    fun _ => 0
  rw [unevenFile_read] at positioned
  obtain ⟨inside, frame, bounded, failed, delivered⟩ := positioned
  have succeeded : (5 : Int) ≠ -1 := by decide
  obtain ⟨r, count, -, holds, -⟩ := delivered succeeded
  have five : r = 5 := by omega
  exact ⟨inside, frame, bounded, fun none => succeeded (failed.mpr (.inr none)), five ▸ holds⟩

end Cdcm.Backend.Smb
