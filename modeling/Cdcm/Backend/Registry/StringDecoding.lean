import Cdcm.Lib.Unicode
import Cdcm.Backend.Registry.Normalize

/-!
# Strings of the registry

What `registry_client::normalize` stores for strings in little-endian UTF-16 with their NUL
terminators.  It keeps the low bytes of the units that are not zero; that is the text in
UTF-8 for ASCII characters only.
-/

namespace Cdcm.Backend.Registry

open Unicode

/-! ## The loops over low bytes -/

/-- The low bytes of the units of a blob. -/
def lowBytes : ByteString → ByteString
  | [] => []
  | [low] => [low]
  | low :: _ :: rest => low :: lowBytes rest

/-- What a loop of `normalize` appends for the low bytes. -/
def scan (onNul : ByteString) : ByteString → ByteString
  | [] => []
  | low :: rest =>
      if low = 0 then onNul ++ (if rest.head? = some 0 then [] else scan onNul rest)
      else low :: scan onNul rest

/-- How many units a loop of `normalize` visits. -/
def turns : ByteString → Nat
  | [] => 0
  | low :: rest => if low = 0 ∧ rest.head? = some 0 then 1 else turns rest + 1

theorem turns_cons_pos (low : Byte) (rest : ByteString) : 0 < turns (low :: rest) := by
  rw [turns]
  split <;> omega

theorem head?_lowBytes (data : ByteString) : (lowBytes data).head? = data.head? := by
  match data with
  | [] => rfl
  | [_] => rfl
  | _ :: _ :: _ => rfl

/-- The low bytes from the index of a unit on. -/
theorem lowBytes_drop {data : ByteString} {i : Nat} {low : Byte} (here : data[i]? = some low) :
    lowBytes (data.drop i) = low :: lowBytes (data.drop (i + 2)) := by
  obtain ⟨inside, rfl⟩ := List.getElem?_eq_some_iff.mp here
  have behind : data.drop (i + 2) = (data.drop (i + 1)).tail := List.tail_drop.symm
  rw [List.drop_eq_getElem_cons inside, behind]
  cases data.drop (i + 1) with
  | nil => rfl
  | cons high rest => rfl

/-- A loop that is at an index scans the low bytes from there on, as far as an `int`
reaches. -/
theorem normalizeLoop_value (onNul : ByteString) (blob : DataBlob) (i : Nat) (s : ByteString)
    (reads : List Nat) (reached : i ≤ intMax) :
    (normalizeLoop onNul blob i s reads).map Prod.fst =
      if i + 2 * turns (lowBytes (blob.data.drop i)) ≤ intMax then
        some (s ++ scan onNul (lowBytes (blob.data.drop i)))
      else none := by
  fun_induction normalizeLoop onNul blob i s reads with
  | case1 i s reads inside zero overflow =>
      have visited := turns_cons_pos (blob.byteAt i) (lowBytes (blob.data.drop (i + 2)))
      rw [lowBytes_drop (DataBlob.getElem?_of_lt inside), if_neg (by omega)]
      rfl
  | case2 i s reads inside zero reached' stops =>
      rw [lowBytes_drop (DataBlob.getElem?_of_lt inside), zero]
      have next : (lowBytes (blob.data.drop (i + 2))).head? = some 0 ∨
          lowBytes (blob.data.drop (i + 2)) = [] := by
        by_cases next : i + 2 < blob.length
        · left
          rw [head?_lowBytes, List.head?_drop, DataBlob.getElem?_of_lt next, stops]
        · right
          rw [List.drop_eq_nil_of_le (Nat.not_lt.mp next)]
          rfl
      cases next with
      | inl next => simp [turns, scan, next, Nat.not_lt.mp reached']
      | inr next => simp [turns, scan, next, Nat.not_lt.mp reached']
  | case3 i s reads inside zero reached' continues ih =>
      have next : (lowBytes (blob.data.drop (i + 2))).head? ≠ some 0 := by
        rw [head?_lowBytes, List.head?_drop]
        intro same
        have inside' : i + 2 < blob.length := (List.getElem?_eq_some_iff.mp same).1
        rw [DataBlob.getElem?_of_lt inside'] at same
        exact continues (Option.some.inj same)
      rw [ih (Nat.not_lt.mp reached'), lowBytes_drop (DataBlob.getElem?_of_lt inside), zero]
      have sum : i + 2 + 2 * turns (lowBytes (blob.data.drop (i + 2))) =
          i + 2 * (turns (lowBytes (blob.data.drop (i + 2))) + 1) := by omega
      simp [turns, scan, next, sum]
  | case4 i s reads inside nonzero overflow =>
      have visited := turns_cons_pos (blob.byteAt i) (lowBytes (blob.data.drop (i + 2)))
      rw [lowBytes_drop (DataBlob.getElem?_of_lt inside), if_neg (by omega)]
      rfl
  | case5 i s reads inside nonzero reached' ih =>
      rw [ih (Nat.not_lt.mp reached'), lowBytes_drop (DataBlob.getElem?_of_lt inside)]
      have sum : i + 2 + 2 * turns (lowBytes (blob.data.drop (i + 2))) =
          i + 2 * (turns (lowBytes (blob.data.drop (i + 2))) + 1) := by omega
      simp [turns, scan, nonzero, sum]
  | case6 i s reads outside =>
      rw [List.drop_eq_nil_of_le (Nat.not_lt.mp outside)]
      simp [lowBytes, turns, scan, reached]

/-! ## Scanning -/

/-- A part without zero bytes stays, up to the NUL behind it. -/
theorem scan_append_zero {part : ByteString} (free : 0 ∉ part) (onNul rest : ByteString) :
    scan onNul (part ++ 0 :: rest) =
      part ++ onNul ++ (if rest.head? = some 0 then [] else scan onNul rest) := by
  induction part with
  | nil => simp [scan]
  | cons low part ih =>
      rw [List.mem_cons, not_or] at free
      simp [scan, Ne.symm free.1, ih free.2]

theorem turns_append_zero {part : ByteString} (free : 0 ∉ part) (rest : ByteString) :
    turns (part ++ 0 :: rest) =
      part.length + 1 + (if rest.head? = some 0 then 0 else turns rest) := by
  induction part with
  | nil =>
      by_cases next : rest.head? = some 0 <;> simp [turns, next]
      omega
  | cons low part ih =>
      rw [List.mem_cons, not_or] at free
      simp only [List.cons_append, turns, Ne.symm free.1, false_and, if_false, ih free.2,
        List.length_cons]
      omega

/-- A scan gives no zero bytes. -/
theorem zero_not_mem_scan {onNul : ByteString} (free : 0 ∉ onNul) (lows : ByteString) :
    0 ∉ scan onNul lows := by
  induction lows with
  | nil => simp [scan]
  | cons low rest ih =>
      rw [scan]
      split
      next zero =>
        split <;> simp [free, ih]
      next nonzero => simp [ih, Ne.symm nonzero]

/-- Where NULs give nothing, a scan is no longer than what stands in front of the last one. -/
theorem length_scan_nil_le (lows : ByteString) : (scan [] (lows ++ [0])).length ≤ lows.length := by
  induction lows with
  | nil => simp [scan]
  | cons low rest ih =>
      rw [List.cons_append, scan]
      split
      next zero =>
        split
        · simp
        · exact (ih.trans (Nat.le_succ _))
      next nonzero => simpa using ih

/-- Where NULs give one byte, a scan is no longer than what it reads up to two NULs. -/
theorem length_scan_le {onNul : ByteString} (single : onNul.length = 1) (lows : ByteString) :
    (scan onNul (lows ++ [0, 0])).length ≤ lows.length + 1 := by
  induction lows with
  | nil => simp [scan, single]
  | cons low rest ih =>
      rw [List.cons_append, scan]
      split
      next zero => split <;> simp <;> omega
      next nonzero => simpa using ih

/-! ## Encoded strings -/

/-- A string with its terminator. -/
def terminated (s : List Char) : ByteString := utf16le s ++ [0, 0]

/-- A string in UTF-8, and a line feed. -/
def line (s : List Char) : ByteString := utf8 s ++ text "\n"

/-- The strings that a value may have. The strings of a list are not empty. -/
inductive RegistryString where
  | sz (s : List Char)
  | expandSz (s : List Char)
  | multiSz (strings : List (List Char)) (nonempty : ∀ s ∈ strings, s ≠ [])

namespace RegistryString

def type : RegistryString → Nat
  | sz _ => regSz
  | expandSz _ => regExpandSz
  | multiSz _ _ => regMultiSz

/-- The blob for a string. -/
def encoded : RegistryString → ByteString
  | sz s | expandSz s => terminated s
  | multiSz strings _ => strings.flatMap terminated ++ [0, 0]

/-- The value for a string. -/
def value : RegistryString → ByteString
  | sz s | expandSz s => utf8 s
  | multiSz strings _ => strings.flatMap line

/-- What `normalize` makes of a string, whatever stands behind its blob. -/
def normalized (input : RegistryString)
    (regValDataString : Nat → ByteString → Option ByteString) (behind : Nat → Byte) :
    Option ByteString :=
  (normalize regValDataString input.type ⟨input.encoded, behind⟩).map Prod.fst

/-- The value is stored. -/
def Stored (input : RegistryString)
    (regValDataString : Nat → ByteString → Option ByteString) : Prop :=
  ∀ behind, input.normalized regValDataString behind = some input.value

/-- ASCII characters, in a list that is not empty, up to the greatest index of an `int`. -/
def Decodable : RegistryString → Prop
  | sz s | expandSz s => (∀ character ∈ s, IsAscii character) ∧ 2 * (s.length + 1) ≤ intMax
  | multiSz strings _ =>
      strings ≠ [] ∧ (∀ s ∈ strings, ∀ character ∈ s, IsAscii character) ∧
        2 * (strings.map fun s => s.length + 1).sum ≤ intMax

/-- The strings of a list have no line feeds. -/
def LineFree : RegistryString → Prop
  | sz _ | expandSz _ => True
  | multiSz strings _ => ∀ s ∈ strings, '\n' ∉ s

end RegistryString

/-! ## The low bytes of a string -/

/-- The low bytes of the units of a text. -/
def lows (s : List Char) : ByteString := (utf16 s).map (Fin.ofNat 256)

theorem lowBytes_utf16le (s : List Char) (rest : ByteString) :
    lowBytes (utf16le s ++ rest) = lows s ++ lowBytes rest := by
  rw [utf16le, lows]
  induction utf16 s with
  | nil => rfl
  | cons unit units ih =>
      rw [List.flatMap_cons, List.append_assoc, List.map_cons, List.cons_append, ← ih]
      rfl

theorem lowBytes_terminated (s : List Char) (rest : ByteString) :
    lowBytes (terminated s ++ rest) = lows s ++ 0 :: lowBytes rest := by
  rw [terminated, List.append_assoc, lowBytes_utf16le]
  rfl

theorem lowBytes_flatMap_terminated (strings : List (List Char)) (rest : ByteString) :
    lowBytes (strings.flatMap terminated ++ rest) =
      strings.flatMap (fun s => lows s ++ [0]) ++ lowBytes rest := by
  induction strings with
  | nil => rfl
  | cons s strings ih =>
      rw [List.flatMap_cons, List.append_assoc, lowBytes_terminated, ih]
      simp

theorem length_lows (s : List Char) : (lows s).length = (utf16 s).length := by
  simp [lows]

/-- The low bytes of ASCII text are the text. -/
theorem lows_of_ascii {s : List Char} (ascii : ∀ character ∈ s, IsAscii character) :
    lows s = utf8 s := by
  rw [lows, utf16_of_ascii ascii, utf8_of_ascii ascii, List.map_map]
  rfl

theorem zero_not_mem_utf8 {s : List Char} (ascii : ∀ character ∈ s, IsAscii character) :
    0 ∉ utf8 s := by
  rw [utf8_of_ascii ascii]
  intro member
  obtain ⟨character, among, zero⟩ := List.mem_map.mp member
  have bounds := ascii character among
  have value := congrArg Fin.val zero
  simp only [Fin.val_ofNat, IsAscii] at value bounds
  omega

theorem length_utf8_of_ascii {s : List Char} (ascii : ∀ character ∈ s, IsAscii character) :
    (utf8 s).length = s.length := by
  simp [utf8_of_ascii ascii]

/-- Text without zero bytes that is no longer in UTF-8 is ASCII text. -/
theorem ascii_of_utf8 {s : List Char} (free : 0 ∉ utf8 s)
    (short : (utf8 s).length ≤ (utf16 s).length) : ∀ character ∈ s, IsAscii character :=
  fun character member =>
    ⟨toNat_pos_of_zero_not_mem free character member, lt_of_length_utf8_le short character member⟩

/-! ## Single strings -/

theorem lowBytes_single (s : List Char) : lowBytes (terminated s) = lows s ++ [0] := by
  simpa [lowBytes] using lowBytes_terminated s []

/-- The scan of a single string. -/
theorem scan_terminated_iff (s : List Char) :
    scan [] (lowBytes (terminated s)) = utf8 s ↔ ∀ character ∈ s, IsAscii character := by
  rw [lowBytes_single]
  constructor
  · intro same
    refine ascii_of_utf8 ?_ ?_
    · rw [← same]
      exact zero_not_mem_scan List.not_mem_nil _
    · rw [← same, ← length_lows]
      exact length_scan_nil_le (lows s)
  · intro ascii
    rw [lows_of_ascii ascii, scan_append_zero (zero_not_mem_utf8 ascii)]
    simp [scan]

theorem turns_terminated {s : List Char} (ascii : ∀ character ∈ s, IsAscii character) :
    turns (lowBytes (terminated s)) = s.length + 1 := by
  rw [lowBytes_single, lows_of_ascii ascii, turns_append_zero (zero_not_mem_utf8 ascii),
    length_utf8_of_ascii ascii]
  rfl

/-! ## Lists of strings -/

/-- The low bytes of a list of strings. -/
def listLows (strings : List (List Char)) : ByteString :=
  strings.flatMap (fun s => lows s ++ [0]) ++ [0]

theorem lowBytes_list (strings : List (List Char)) :
    lowBytes (strings.flatMap terminated ++ [0, 0]) = listLows strings :=
  lowBytes_flatMap_terminated strings [0, 0]

theorem listLows_cons (s : List Char) (strings : List (List Char)) :
    listLows (s :: strings) = lows s ++ 0 :: listLows strings := by
  simp [listLows]

/-- Behind the last string there is a NUL, and behind another one there is none. -/
theorem head?_listLows {strings : List (List Char)} (nonempty : ∀ s ∈ strings, s ≠ [])
    (ascii : ∀ s ∈ strings, ∀ character ∈ s, IsAscii character) :
    (listLows strings).head? = some 0 ↔ strings = [] := by
  cases strings with
  | nil => simp [listLows]
  | cons s strings =>
      simp only [List.mem_cons, forall_eq_or_imp] at nonempty ascii
      have free := zero_not_mem_utf8 ascii.1
      rw [listLows_cons, lows_of_ascii ascii.1]
      cases bytes : utf8 s with
      | nil =>
          have none : s.length = 0 := by rw [← length_utf8_of_ascii ascii.1, bytes]; rfl
          exact absurd (List.length_eq_zero_iff.mp none) nonempty.1
      | cons first rest =>
          rw [bytes, List.mem_cons, not_or] at free
          simp [Ne.symm free.1]

/-- The scan of a list of ASCII strings. -/
theorem scan_listLows {strings : List (List Char)} (some_ : strings ≠ [])
    (nonempty : ∀ s ∈ strings, s ≠ [])
    (ascii : ∀ s ∈ strings, ∀ character ∈ s, IsAscii character) :
    scan (text "\n") (listLows strings) = strings.flatMap line ∧
      turns (listLows strings) = (strings.map fun s => s.length + 1).sum := by
  induction strings with
  | nil => contradiction
  | cons s strings ih =>
      simp only [List.mem_cons, forall_eq_or_imp] at nonempty ascii
      have free := zero_not_mem_utf8 ascii.1
      have last := head?_listLows nonempty.2 ascii.2
      rw [listLows_cons, lows_of_ascii ascii.1, scan_append_zero free, turns_append_zero free,
        length_utf8_of_ascii ascii.1]
      by_cases more : strings = []
      · simp [more, line, listLows]
      · have rest := ih more nonempty.2 ascii.2
        rw [if_neg (mt last.mp more), if_neg (mt last.mp more), rest.1, rest.2]
        simp [line]

/-- In front of its last two NULs a list of strings has its units and the other NULs. -/
theorem listLows_concat (init : List (List Char)) (last : List Char) :
    listLows (init ++ [last]) =
      (init.flatMap (fun s => lows s ++ [0]) ++ lows last) ++ [0, 0] := by
  simp [listLows]

theorem length_flatMap_lows (strings : List (List Char)) :
    (strings.flatMap fun s => lows s ++ [0]).length =
      (utf16 strings.flatten).length + strings.length := by
  induction strings with
  | nil => rfl
  | cons s strings ih =>
      simp only [List.flatMap_cons, List.length_append, ih, length_lows, List.flatten_cons, utf16,
        List.flatMap_append, List.length_cons, List.length_nil]
      omega

theorem length_flatMap_line (strings : List (List Char)) :
    (strings.flatMap line).length = (utf8 strings.flatten).length + strings.length := by
  induction strings with
  | nil => rfl
  | cons s strings ih =>
      simp only [List.flatMap_cons, List.length_append, ih, line, List.flatten_cons, utf8,
        List.flatMap_append, List.length_cons]
      rw [show (text "\n").length = 1 from rfl]
      omega

/-- What stands in a text stands in its line. -/
theorem mem_flatMap_line {strings : List (List Char)} {byte : Byte}
    (member : byte ∈ utf8 strings.flatten) : byte ∈ strings.flatMap line := by
  obtain ⟨character, among, here⟩ := List.mem_flatMap.mp member
  obtain ⟨s, stringMember, charMember⟩ := List.mem_flatten.mp among
  have inText : byte ∈ utf8 s := List.mem_flatMap.mpr ⟨character, charMember, here⟩
  exact List.mem_flatMap.mpr ⟨s, stringMember, List.mem_append_left _ inText⟩

/-- Only lists of ASCII strings are scanned to their lines. -/
theorem ascii_of_scan {strings : List (List Char)}
    (same : scan (text "\n") (listLows strings) = strings.flatMap line) :
    strings ≠ [] ∧ ∀ s ∈ strings, ∀ character ∈ s, IsAscii character := by
  have free : 0 ∉ utf8 strings.flatten := by
    intro member
    have among := mem_flatMap_line member
    rw [← same] at among
    exact zero_not_mem_scan (by decide) _ among
  obtain rfl | ⟨init, last, whole⟩ := strings.eq_nil_or_concat'
  · simp [listLows, scan, text] at same
  · have short : (utf8 strings.flatten).length ≤ (utf16 strings.flatten).length := by
      have bound := @length_scan_le (text "\n") rfl
        (init.flatMap (fun s => lows s ++ [0]) ++ lows last)
      have units := length_flatMap_lows strings
      rw [← listLows_concat, ← whole, same, length_flatMap_line] at bound
      rw [whole, List.flatMap_append, ← whole] at units
      simp only [List.flatMap_singleton, List.length_append, List.length_singleton] at units bound
      omega
    constructor
    · simp [whole]
    · intro s member character among
      exact ascii_of_utf8 free short character (List.mem_flatten.mpr ⟨s, member, among⟩)

/-- The lines of a list of strings can be told apart. -/
theorem splitOn_lines {strings : List (List Char)} (free : ∀ s ∈ strings, 10 ∉ utf8 s) :
    (strings.flatMap line).splitOn 10 = strings.map utf8 ++ [[]] := by
  induction strings with
  | nil => rfl
  | cons s strings ih =>
      simp only [List.mem_cons, forall_eq_or_imp] at free
      rw [List.flatMap_cons, line, List.append_assoc]
      change (utf8 s ++ 10 :: strings.flatMap line).splitOn 10 = _
      rw [List.splitOn_append_cons_self_of_not_mem free.1, ih free.2]
      rfl

theorem lineFeed_not_mem_utf8 {s : List Char} (ascii : ∀ character ∈ s, IsAscii character)
    (free : '\n' ∉ s) : 10 ∉ utf8 s := by
  rw [utf8_of_ascii ascii]
  intro member
  obtain ⟨character, among, same⟩ := List.mem_map.mp member
  have small := (ascii character among).2
  have code := congrArg Fin.val same
  simp only [Fin.val_ofNat] at code
  have lineFeed : character = '\n' := by
    apply Char.toNat_inj.mp
    change character.toNat = 10
    change character.toNat % 256 = 10 at code
    omega
  exact free (lineFeed ▸ among)

/-- Texts that are the same in UTF-8 are the same list of ASCII strings. -/
theorem eq_of_map_utf8_eq {left right : List (List Char)}
    (leftAscii : ∀ s ∈ left, ∀ character ∈ s, IsAscii character)
    (rightAscii : ∀ s ∈ right, ∀ character ∈ s, IsAscii character)
    (same : left.map utf8 = right.map utf8) : left = right := by
  induction left generalizing right with
  | nil => exact (List.map_eq_nil_iff.mp same.symm).symm
  | cons first left ih =>
      cases right with
      | nil => simp at same
      | cons second right =>
          simp only [List.map_cons, List.cons.injEq] at same
          simp only [List.mem_cons, forall_eq_or_imp] at leftAscii rightAscii
          rw [eq_of_utf8_eq leftAscii.1 rightAscii.1 same.1, ih leftAscii.2 rightAscii.2 same.2]

/-! ## What is stored -/

namespace RegistryString

/-- What `normalize` makes of a string, in terms of its low bytes. -/
theorem normalized_eq (input : RegistryString)
    (regValDataString : Nat → ByteString → Option ByteString) (behind : Nat → Byte) :
    input.normalized regValDataString behind =
      let onNul := if input.type = regMultiSz then text "\n" else []
      if 2 * turns (lowBytes input.encoded) ≤ intMax then
        some (scan onNul (lowBytes input.encoded))
      else none := by
  have loop (onNul : ByteString) :=
    normalizeLoop_value onNul ⟨input.encoded, behind⟩ 0 [] [] (Nat.zero_le _)
  simp only [List.drop_zero, Nat.zero_add, List.nil_append] at loop
  cases input with
  | sz s => exact loop []
  | expandSz s => exact loop []
  | multiSz strings nonempty => exact loop (text "\n")

/-- A value is stored exactly when the scan gives it and the index does not overflow. -/
theorem stored_iff (input : RegistryString)
    (regValDataString : Nat → ByteString → Option ByteString) :
    input.Stored regValDataString ↔
      2 * turns (lowBytes input.encoded) ≤ intMax ∧
        scan (if input.type = regMultiSz then text "\n" else []) (lowBytes input.encoded) =
          input.value := by
  simp only [Stored, normalized_eq]
  by_cases reached : 2 * turns (lowBytes input.encoded) ≤ intMax
  · simp [reached]
  · simp [reached]

/-- The value of a single string. -/
theorem single_iff (s : List Char) :
    2 * turns (lowBytes (terminated s)) ≤ intMax ∧ scan [] (lowBytes (terminated s)) = utf8 s ↔
      (∀ character ∈ s, IsAscii character) ∧ 2 * (s.length + 1) ≤ intMax := by
  rw [scan_terminated_iff, and_comm]
  refine and_congr_right fun ascii => ?_
  rw [turns_terminated ascii]

/-- The strings that are stored. -/
theorem stored_iff_decodable (input : RegistryString)
    (regValDataString : Nat → ByteString → Option ByteString) :
    input.Stored regValDataString ↔ input.Decodable := by
  rw [stored_iff]
  cases input with
  | sz s => exact single_iff s
  | expandSz s => exact single_iff s
  | multiSz strings nonempty =>
      change 2 * turns (lowBytes (strings.flatMap terminated ++ [0, 0])) ≤ intMax ∧
        scan (text "\n") (lowBytes (strings.flatMap terminated ++ [0, 0])) =
          strings.flatMap line ↔ _
      rw [lowBytes_list]
      constructor
      · intro ⟨reached, same⟩
        have ascii := ascii_of_scan same
        rw [(scan_listLows ascii.1 nonempty ascii.2).2] at reached
        exact ⟨ascii.1, ascii.2, reached⟩
      · intro ⟨some_, ascii, reached⟩
        have scanned := scan_listLows some_ nonempty ascii
        exact ⟨scanned.2 ▸ reached, scanned.1⟩

/-- Strings of one type with the same value are the same. -/
theorem eq_of_value_eq {left right : RegistryString} (leftDecodable : left.Decodable)
    (rightDecodable : right.Decodable) (types : left.type = right.type)
    (leftFree : left.LineFree) (rightFree : right.LineFree)
    (same : left.value = right.value) : left = right := by
  cases left with
  | sz s =>
      cases right with
      | sz t => rw [eq_of_utf8_eq leftDecodable.1 rightDecodable.1 same]
      | expandSz t => cases types
      | multiSz strings nonempty => cases types
  | expandSz s =>
      cases right with
      | sz t => cases types
      | expandSz t => rw [eq_of_utf8_eq leftDecodable.1 rightDecodable.1 same]
      | multiSz strings nonempty => cases types
  | multiSz strings nonempty =>
      cases right with
      | sz t => cases types
      | expandSz t => cases types
      | multiSz others nonempty' =>
          have split := congrArg (List.splitOn 10) same
          have leftLines := splitOn_lines fun s member =>
            lineFeed_not_mem_utf8 (leftDecodable.2.1 s member) (leftFree s member)
          have rightLines := splitOn_lines fun s member =>
            lineFeed_not_mem_utf8 (rightDecodable.2.1 s member) (rightFree s member)
          simp only [value, leftLines, rightLines, List.append_cancel_right_eq] at split
          have equal := eq_of_map_utf8_eq leftDecodable.2.1 rightDecodable.2.1 split
          subst equal
          rfl

end RegistryString

/-- The strings that are stored are ASCII strings, and lists of them that are not empty. No
two of one type have the same value, where the strings of the lists have no line feeds. -/
theorem registryStrings_stored (regValDataString : Nat → ByteString → Option ByteString) :
    (∀ input : RegistryString, input.Stored regValDataString ↔ input.Decodable) ∧
      ∀ (left right : RegistryString) (behind behind' : Nat → Byte),
        left.Decodable → right.Decodable → left.type = right.type → left.LineFree →
        right.LineFree → left.normalized regValDataString behind =
          right.normalized regValDataString behind' → left = right := by
  refine ⟨fun input => input.stored_iff_decodable regValDataString, ?_⟩
  intro left right behind behind' leftDecodable rightDecodable types leftFree rightFree same
  have leftStored := (left.stored_iff_decodable regValDataString).mpr leftDecodable behind
  have rightStored := (right.stored_iff_decodable regValDataString).mpr rightDecodable behind'
  rw [leftStored, rightStored, Option.some.injEq] at same
  exact RegistryString.eq_of_value_eq leftDecodable rightDecodable types leftFree rightFree same

/-- The texts `A` and `é`: the first is stored, and the second is not. -/
theorem letters_stored :
    (RegistryString.sz ['A']).Stored (fun _ _ => none) ∧
      ¬(RegistryString.sz ['é']).Stored (fun _ _ => none) := by
  have iff := (registryStrings_stored fun _ _ => none).1
  rw [iff, iff]
  constructor
  · exact ⟨by simp [IsAscii], by simp [intMax]⟩
  · intro accent
    exact absurd (accent.1 'é' (List.mem_singleton.mpr rfl)).2 (by decide)

/-- The text `é` is not stored. -/
theorem accent_not_stored :
    ¬∀ (regValDataString : Nat → ByteString → Option ByteString) (input : RegistryString),
      input.Stored regValDataString := by
  intro stored
  have accent := stored (fun _ _ => none) (.sz ['é'])
  rw [RegistryString.stored_iff_decodable] at accent
  exact absurd (accent.1 'é' (List.mem_singleton.mpr rfl)).2 (by decide)

end Cdcm.Backend.Registry
