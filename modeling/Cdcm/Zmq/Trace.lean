import Cdcm.Zmq.Message

/-!
# Traces of messages

`zmsg::to_str` with its loops over parts and bytes.  The number of bytes of a part is the
greater of its size and a constant, and the number of parts in front of the body is an unsigned
size without one; a loop that leaves its range reads what is not there.
-/

namespace Cdcm.Zmq

/-! ## The code -/

/-- `for_each_n`; none when it leaves the range. -/
def forEachN {α σ : Type} (f : σ → α → Option σ) : List α → Nat → σ → Option σ
  | _, 0, state => some state
  | [], _ + 1, _ => none
  | element :: rest, n + 1, state => (f state element).bind (forEachN f rest n)

/-- The string stream with its base, the bytes of the part that is printed, and those of the
parts before it. -/
structure Stream where
  out : ByteString
  hex : Bool
  current : ByteString
  shown : List ByteString

/-- The empty stream. -/
def Stream.empty : Stream := ⟨[], false, [], []⟩

/-- Text is put into the stream. -/
def Stream.put (ss : Stream) (characters : ByteString) : Stream :=
  { ss with out := ss.out ++ characters }

/-- A number is put into the stream, filled up with zeros to a width. -/
def Stream.putNumber (ss : Stream) (width value : Nat) : Stream :=
  let digits := text (String.ofList (Nat.toDigits (if ss.hex then 16 else 10) value))
  ss.put (List.replicate (width - digits.length) 48 ++ digits)

/-- `text_print` -/
def textPrint (ss : Stream) (c : Byte) : Stream :=
  { ss with current := ss.current ++ [c] }.put [c]

/-- `binary_print`. The stream stays in hexadecimal. -/
def binaryPrint (ss : Stream) (c : Byte) : Stream :=
  { ss with hex := true, current := ss.current ++ [c] }.putNumber 2 c.val

/-- `check_is_text` -/
def checkIsText (data : ByteString) : Bool :=
  data.all fun char => 32 ≤ char.val ∧ char.val ≤ 127

/-- `non_full_output_len` -/
def nonFullOutputLen : Nat := 30

/-- The size in front of the bytes of a part. -/
def partStart (ss : Stream) (data : ByteString) : Stream :=
  (({ ss with current := [] }.put (text "[")).putNumber 3 data.length).put (text "] ")

/-- The end of a line behind the bytes of a part. -/
def partEnd (ss : Stream) : Stream := { ss with shown := ss.shown ++ [ss.current] }.put (text "\n")

/-- How many bytes of a part are printed. -/
def outputLen (full : Bool) (data : ByteString) : Nat :=
  if full then data.length else max nonFullOutputLen data.length

/-- `part_print` -/
def partPrint (full : Bool) (ss : Stream) (data : ByteString) : Option Stream :=
  let print := if checkIsText data then textPrint else binaryPrint
  (forEachN (fun ss c => some (print ss c)) data (outputLen full data) (partStart ss data)).map
    partEnd

/-- `size() - 1`, for an unsigned size. -/
def sizeMinusOne : Nat → Nat
  | 0 => 2 ^ 64 - 1
  | size + 1 => size

/-- The stream of `to_str`; none when it reads outside of the message. -/
def toStream (msg : Zmsg) (withHeader withBody full : Bool) : Option Stream := do
  if !withHeader && !withBody && !full then return .empty
  let ss ←
    if withHeader then
      forEachN (partPrint full) msg.partData (sizeMinusOne msg.partData.length) .empty
    else some .empty
  if withBody then
    let data ← msg.partData[sizeMinusOne msg.partData.length]?
    partPrint full ss data
  else return ss

/-- `to_str` -/
def toStr (msg : Zmsg) (withHeader withBody full : Bool) : Option ByteString :=
  (toStream msg withHeader withBody full).map Stream.out

/-! ## What is wanted of it -/

/-- Nothing is read outside of the message, and where it is not to be shown in full, no more
than the first thirty bytes of a part are shown. -/
structure Abbreviates (msg : Zmsg) (withHeader withBody full : Bool) : Prop where
  inside : (toStr msg withHeader withBody full).isSome
  short : full = false → ∀ ss, toStream msg withHeader withBody full = some ss →
    ∀ shown ∈ ss.shown, ∃ part ∈ msg.partData, shown <+: part.take 30

/-- The parts that are printed: all but the last one as the header, the last one as the
body. -/
def printed (msg : Zmsg) (withHeader withBody : Bool) : List ByteString :=
  (if withHeader then msg.partData.dropLast else []) ++
    if withBody then msg.partData.getLast?.toList else []

/-- Where parts are printed, there are some, and they are shown in full or have just the number
of bytes that is shown. -/
def JustFits (msg : Zmsg) (withHeader withBody full : Bool) : Prop :=
  withHeader = true ∨ withBody = true →
    msg.partData ≠ [] ∧
      (full = true ∨ ∀ part ∈ printed msg withHeader withBody, part.length = 30)

/-! ## The loops -/

/-- A loop that stays in its range is a fold. -/
theorem forEachN_eq {α σ : Type} (f : σ → α → Option σ) (elements : List α) (n : Nat)
    (state : σ) :
    forEachN f elements n state =
      if n ≤ elements.length then (elements.take n).foldlM f state else none := by
  induction elements generalizing n state with
  | nil =>
      cases n with
      | zero => rfl
      | succ n => simp [forEachN]
  | cons element rest ih =>
      cases n with
      | zero => rfl
      | succ n =>
          rw [forEachN, List.take_succ_cons, List.foldlM_cons, List.length_cons]
          simp only [Nat.add_le_add_iff_right]
          cases result : f state element with
          | none => simp
          | some next => simpa using ih n next

/-- What has been given to a printer. -/
theorem foldl_print (isText : Bool) (data : ByteString) (ss : Stream) :
    (data.foldl (if isText then textPrint else binaryPrint) ss).shown = ss.shown ∧
      (data.foldl (if isText then textPrint else binaryPrint) ss).current =
        ss.current ++ data := by
  induction data generalizing ss with
  | nil => simp
  | cons c data ih =>
      have later := ih ((if isText then textPrint else binaryPrint) ss c)
      rw [List.foldl_cons, later.1, later.2]
      cases isText <;> simp [textPrint, binaryPrint, Stream.put, Stream.putNumber]

/-- The bytes that are printed are there when the part is long enough, and then they are all
of them. -/
theorem outputLen_le_iff (full : Bool) (data : ByteString) :
    outputLen full data ≤ data.length ↔ full = true ∨ 30 ≤ data.length := by
  rw [outputLen, nonFullOutputLen]
  cases full <;> simp

theorem outputLen_eq {full : Bool} {data : ByteString}
    (inside : outputLen full data ≤ data.length) : outputLen full data = data.length := by
  rw [outputLen] at inside ⊢
  cases full with
  | true => rfl
  | false => exact le_antisymm inside (le_max_right _ _)

/-- A part is printed when it is long enough, and then to its end. -/
theorem partPrint_eq (full : Bool) (ss : Stream) (data : ByteString) :
    partPrint full ss data =
      if full = true ∨ 30 ≤ data.length then
        some (partEnd (data.foldl (if checkIsText data then textPrint else binaryPrint)
          (partStart ss data)))
      else none := by
  rw [partPrint, forEachN_eq]
  simp only [outputLen_le_iff]
  split
  next inside =>
    rw [outputLen_eq ((outputLen_le_iff full data).mpr inside), List.take_length]
    exact congrArg (Option.map partEnd) List.foldlM_pure
  next => rfl

theorem partPrint_isSome_iff (full : Bool) (ss : Stream) (data : ByteString) :
    (partPrint full ss data).isSome ↔ full = true ∨ 30 ≤ data.length := by
  rw [partPrint_eq]
  split <;> simp_all

/-- All bytes of a part are shown. -/
theorem partPrint_shown {full : Bool} {ss next : Stream} {data : ByteString}
    (done : partPrint full ss data = some next) : next.shown = ss.shown ++ [data] := by
  rw [partPrint_eq] at done
  obtain ⟨_, done⟩ := Option.ite_none_right_eq_some.mp done
  obtain rfl := Option.some.inj done
  have print := foldl_print (checkIsText data) data (partStart ss data)
  rw [partEnd, Stream.put, print.1, print.2]
  rfl

/-- Parts are printed when all of them are long enough. -/
theorem foldlM_partPrint_isSome_iff (full : Bool) (parts : List ByteString) (ss : Stream) :
    (parts.foldlM (partPrint full) ss).isSome ↔
      full = true ∨ ∀ part ∈ parts, 30 ≤ part.length := by
  induction parts generalizing ss with
  | nil => simp
  | cons part parts ih =>
      rw [List.foldlM_cons, List.forall_mem_cons, or_and_left, ← partPrint_isSome_iff full ss part]
      cases partPrint full ss part with
      | none => simp
      | some next => simpa using ih next

theorem foldlM_partPrint_shown {full : Bool} {parts : List ByteString} {ss next : Stream}
    (done : parts.foldlM (partPrint full) ss = some next) :
    next.shown = ss.shown ++ parts := by
  induction parts generalizing ss with
  | nil =>
      obtain rfl := Option.some.inj done
      simp
  | cons part parts ih =>
      rw [List.foldlM_cons] at done
      obtain ⟨middle, first, rest⟩ := Option.bind_eq_some_iff.mp done
      rw [ih rest, partPrint_shown first]
      simp

/-! ## The parts of a message -/

/-- Where parts are asked for, a message needs some. -/
theorem toStream_nil {withHeader withBody : Bool} (asked : withHeader = true ∨ withBody = true)
    (full : Bool) : toStream ⟨[]⟩ withHeader withBody full = none := by
  cases withHeader <;> cases withBody <;> simp [toStream, forEachN, sizeMinusOne] at asked ⊢

/-- Where none are asked for, nothing is shown. -/
theorem toStream_unasked (msg : Zmsg) {withHeader withBody : Bool}
    (unasked : ¬(withHeader = true ∨ withBody = true)) (full : Bool) :
    toStream msg withHeader withBody full = some .empty := by
  cases withHeader <;> cases withBody <;> cases full <;> simp [toStream] at unasked ⊢

theorem mem_of_mem_printed {msg : Zmsg} {withHeader withBody : Bool} {part : ByteString}
    (member : part ∈ printed msg withHeader withBody) : part ∈ msg.partData := by
  rw [printed, List.mem_append] at member
  cases member with
  | inl header =>
      split at header
      · exact List.mem_of_mem_dropLast header
      · contradiction
  | inr body =>
      split at body
      · exact List.mem_of_getLast? (Option.mem_toList.mp body)
      · contradiction

theorem printed_concat (front : List ByteString) (last : ByteString)
    (withHeader withBody : Bool) :
    printed ⟨front ++ [last]⟩ withHeader withBody =
      (if withHeader then front else []) ++ if withBody then [last] else [] := by
  simp [printed]

/-- Of a message with parts, those are printed that are asked for. -/
theorem toStream_eq {msg : Zmsg} (some_ : msg.partData ≠ []) (withHeader withBody full : Bool) :
    toStream msg withHeader withBody full =
      (printed msg withHeader withBody).foldlM (partPrint full) .empty := by
  obtain ⟨parts⟩ := msg
  obtain ⟨front, last, rfl⟩ := (List.eq_nil_or_concat' parts).resolve_left some_
  have size : sizeMinusOne (front ++ [last]).length = front.length := by
    rw [List.length_append, List.length_singleton, sizeMinusOne]
  have header (ss : Stream) : forEachN (partPrint full) (front ++ [last]) front.length ss =
      front.foldlM (partPrint full) ss := by
    rw [forEachN_eq, if_pos (by simp), List.take_left]
  have body : (front ++ [last])[front.length]? = some last := by simp
  rw [printed_concat, toStream]
  simp only [size, header, body]
  cases withHeader <;> cases withBody <;> cases full <;> simp [List.foldlM_append]

theorem toStr_isSome (msg : Zmsg) (withHeader withBody full : Bool) :
    (toStr msg withHeader withBody full).isSome =
      (toStream msg withHeader withBody full).isSome := by
  rw [toStr, Option.isSome_map]

/-- The trace of a message is abbreviated as wanted exactly when what is printed just fits. -/
theorem toStr_abbreviates_iff (msg : Zmsg) (withHeader withBody full : Bool) :
    Abbreviates msg withHeader withBody full ↔ JustFits msg withHeader withBody full := by
  by_cases asked : withHeader = true ∨ withBody = true
  · by_cases none : msg.partData = []
    · obtain ⟨parts⟩ := msg
      subst none
      have outside := toStream_nil asked full
      refine iff_of_false (fun abbreviates => ?_) fun fits => (fits asked).1 rfl
      have inside := abbreviates.inside
      rw [toStr_isSome, outside] at inside
      contradiction
    · have folds := toStream_eq none withHeader withBody full
      have inside := foldlM_partPrint_isSome_iff full (printed msg withHeader withBody) .empty
      rw [← folds, ← toStr_isSome] at inside
      constructor
      · intro abbreviates _
        refine ⟨none, or_iff_not_imp_left.mpr fun notFull part member => ?_⟩
        have long := (inside.mp abbreviates.inside).resolve_left notFull part member
        have done := abbreviates.inside
        rw [toStr_isSome] at done
        obtain ⟨ss, done⟩ := Option.isSome_iff_exists.mp done
        have shown := foldlM_partPrint_shown (folds.symm.trans done)
        rw [← List.nil_append (printed msg withHeader withBody)] at member
        obtain ⟨whole, _, leading⟩ :=
          abbreviates.short (Bool.eq_false_iff.mpr notFull) ss done part (shown ▸ member)
        exact le_antisymm (leading.length_le.trans (List.length_take_le 30 whole)) long
      · intro fits
        have just := (fits asked).2
        constructor
        case inside =>
          exact inside.mpr (just.imp_right fun all part member => (all part member).ge)
        case short =>
          intro notFull ss done shown member
          rw [foldlM_partPrint_shown (folds.symm.trans done)] at member
          have all := just.resolve_left (Bool.eq_false_iff.mp notFull)
          have inPrinted : shown ∈ printed msg withHeader withBody := by
            simpa [Stream.empty] using member
          refine ⟨shown, mem_of_mem_printed inPrinted, ?_⟩
          rw [List.take_of_length_le (all shown inPrinted).le]
  · have empty := toStream_unasked msg asked full
    refine iff_of_true ⟨?_, fun _ ss done => ?_⟩ fun absent => absurd absent asked
    · rw [toStr_isSome, empty]
      rfl
    · rw [empty] at done
      exact Option.some.inj done ▸ nofun

/-- The trace of an incoming message: a shorter body is not the end of what is read, and a
longer one is shown as a whole. -/
theorem clientTrace (front : List ByteString) (body : ByteString) :
    if body.length < 30 then toStr ⟨front ++ [body]⟩ false true false = none
    else ∃ ss, toStream ⟨front ++ [body]⟩ false true false = some ss ∧ ss.shown = [body] := by
  have whole : toStream ⟨front ++ [body]⟩ false true false = partPrint false .empty body := by
    rw [toStream_eq (by simp), printed_concat]
    simp
  have prints := partPrint_isSome_iff false .empty body
  split
  next short =>
    have outside : ¬(partPrint false .empty body).isSome := by
      rw [prints]
      simpa using short
    rw [toStr, whole, Option.not_isSome_iff_eq_none.mp outside]
    rfl
  next long =>
    obtain ⟨ss, done⟩ := Option.isSome_iff_exists.mp (prints.mpr (.inr (Nat.not_lt.mp long)))
    exact ⟨ss, whole.trans done, partPrint_shown done⟩

/-- A body of one byte is read behind its end, one of 31 bytes is shown as a whole, and of a
message without parts a missing one is read. -/
theorem traces_wrong :
    ¬Abbreviates ⟨[text "M", text "x"]⟩ false true false ∧
      toStr ⟨[text "M", text "0123456789012345678901234567890"]⟩ false true false =
        some (text "[031] 0123456789012345678901234567890\n") ∧
      ¬Abbreviates ⟨[text "M", text "0123456789012345678901234567890"]⟩ false true false ∧
      ¬Abbreviates ⟨[]⟩ true false true := by
  refine ⟨fun abbreviates => ?_, by decide +kernel, fun abbreviates => ?_, fun abbreviates => ?_⟩
  · exact absurd abbreviates.inside (by decide +kernel)
  · have shows := clientTrace [text "M"] (text "0123456789012345678901234567890")
    rw [if_neg (by decide +kernel)] at shows
    obtain ⟨ss, done, shown⟩ := shows
    obtain ⟨part, _, leading⟩ :=
      abbreviates.short rfl ss done (text "0123456789012345678901234567890")
        (by rw [shown]; exact List.mem_singleton_self _)
    exact absurd (leading.length_le.trans (List.length_take_le 30 part)) (by decide +kernel)
  · exact absurd abbreviates.inside (by decide +kernel)

end Cdcm.Zmq
