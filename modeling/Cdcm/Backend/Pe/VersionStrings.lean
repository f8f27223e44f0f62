import Cdcm.Backend.Pe.VersionWalk

/-!
# Well-formed version information

The layout of a `VS_VERSIONINFO` structure, as its documentation has it: the records of a
string table begin at multiples of four, and a record without a value is one whose length
of the value is zero.  `extract_info` finds a value from the end of its record backwards,
and does not ask where the table ends.  So what it leaves in the map depends on what lies
behind a record without a value, and behind the table.
-/

namespace Cdcm.Backend.Pe

open Hoare

/-! ## Well-formed blocks -/

/-- A string of a table, and where its record is. -/
structure VersionString where
  key : U16String
  value : U16String
  position : Nat
deriving DecidableEq

section Block

variable (content : ByteString) (last : Nat)

/-- Behind the key of a record, with its zero. -/
def keyEnd (p : Nat) (key : U16String) : Nat := p + sizeofVersionInfoHeader + 2 * (key.length + 1)

/-- The value of a record, and where its contents end. -/
inductive StoredAt (p : Nat) (key : U16String) : U16String → Nat → Prop where
  | absent (noValue : field content (p + 2) 2 = 0) : StoredAt p key [] (keyEnd p key)
  | present {value : U16String} (length : field content (p + 2) 2 = value.length + 1)
      (isValue : StringAt content last (padded (keyEnd p key)) value) :
      StoredAt p key value (padded (keyEnd p key) + 2 * (value.length + 1))

/-- A record, with or without the padding behind its contents. -/
structure RecordAt (p : Nat) (key value : U16String) : Prop where
  isKey : StringAt content last (p + sizeofVersionInfoHeader) key
  stored : ∃ stop, StoredAt content last p key value stop ∧
    (p + field content p 2 = stop ∨ p + field content p 2 = padded stop)
  within : p + field content p 2 ≤ last

/-- The records from some position on, and the padded end of the last one. -/
inductive TableAt : Nat → List VersionString → Nat → Prop where
  | done {p : Nat} : TableAt p [] p
  | next {p final : Nat} {key value : U16String} {strings : List VersionString}
      (record : RecordAt content last p key value)
      (rest : TableAt (padded (p + field content p 2)) strings final) :
      TableAt p (⟨key, value, p⟩ :: strings) final

/-- The child `StringFileInfo`: it is the first one, or it is behind `VarFileInfo` and the
zeros that pad it. -/
inductive FileInfoAt (p : Nat) : Nat → Prop where
  | first (isKey : StringAt content last (p + sizeofVersionInfoHeader) (utf16 "StringFileInfo")) :
      FileInfoAt p p
  | second (isVar : StringAt content last (p + sizeofVersionInfoHeader) (utf16 "VarFileInfo"))
      (positive : 0 < field content p 2)
      (padding : (p + field content p 2) % 4 = 0 ∨
        (p + field content p 2) % 4 = 2 ∧ field content (p + field content p 2) 2 = 0)
      (isKey : StringAt content last (padded (p + field content p 2) + sizeofVersionInfoHeader)
        (utf16 "StringFileInfo")) : FileInfoAt p (padded (p + field content p 2))

/-- `dwFileVersionMS` of the fixed information. -/
def dwFileVersionMs (offset : Nat) : Nat := field content (offset + 40 + 8) 4

/-- `dwFileVersionLS` of the fixed information. -/
def dwFileVersionLs (offset : Nat) : Nat := field content (offset + 40 + 12) 4

/-- The first string table of a child. -/
def stringTable (child : Nat) : Nat := child + 36

/-- A `VS_VERSIONINFO` structure of some size: the header with its key, the fixed
information, and a child with a table of strings. -/
structure VersionBlock (offset size child : Nat) (strings : List VersionString) : Prop where
  aligned : offset % 4 = 0
  isKey : StringAt content (offset + size) (offset + sizeofVersionInfoHeader)
    (utf16 "VS_VERSION_INFO")
  fixed : field content (offset + 2) 2 = sizeofVsFixedfileinfo
  fits : field content offset 2 ≤ size
  isChild : FileInfoAt content (offset + size) (offset + 40 + sizeofVsFixedfileinfo) child
  language : ∃ digits, StringAt content (offset + size)
    (stringTable child + sizeofVersionInfoHeader) digits ∧ digits.length = 8
  table : TableAt content (offset + size) (stringTable child + 24) strings
    (padded (stringTable child + field content (stringTable child) 2))

end Block

/-- The last string with a key. -/
def lastString (key : U16String) : List VersionString → Option VersionString
  | [] => none
  | string :: rest => (lastString key rest).or (if string.key = key then some string else none)

/-- What is to be left in the map: the version of the fixed information, and the strings
that are wanted. -/
def recorded (wanted : List U16String) (strings : List VersionString) (ms ls : Nat)
    (key : U16String) : Option U16String :=
  if key = utf16 "FileVersion" then some (versionFromFixed ms ls)
  else if key ∈ wanted then (lastString key strings).map VersionString.value
  else none

/-! ## Texts and records -/

section Records

variable {data content : ByteString} {first last : Nat}

theorem StringAt.mono {p later : Nat} {text : U16String} (isText : StringAt content last p text)
    (longer : last ≤ later) : StringAt content later p text := by
  induction isText with
  | nil within zero => exact .nil (by omega) zero
  | cons within nonzero _ ih => exact .cons (by omega) nonzero ih

/-- A text has a zero behind its units. -/
theorem StringAt.closed {p : Nat} {text : U16String} (isText : StringAt content last p text) :
    p + 2 * text.length + 2 ≤ last ∧ field content (p + 2 * text.length) 2 = 0 := by
  induction isText with
  | nil within zero => exact ⟨within, zero⟩
  | cons within nonzero _ ih =>
      rw [List.length_cons]
      have same : ∀ p n : Nat, p + 2 * (n + 1) = p + 2 + 2 * n := by omega
      rw [same]
      exact ih

/-- Texts can be looked for. -/
instance decidableStringAt : (text : U16String) → (p : Nat) →
    Decidable (StringAt content last p text)
  | [], p =>
      decidable_of_iff (p + 2 ≤ last ∧ field content p 2 = 0)
        ⟨fun ⟨within, zero⟩ => .nil within zero, fun isText => isText.closed⟩
  | unit :: rest, p =>
      have := decidableStringAt rest (p + 2)
      decidable_of_iff (p + 2 ≤ last ∧ field content p 2 = unit ∧ unit ≠ 0 ∧
          StringAt content last (p + 2) rest) <| by
        constructor
        · intro ⟨within, isUnit, nonzero, behind⟩
          rw [← isUnit] at nonzero ⊢
          exact .cons within nonzero behind
        · intro isText
          cases isText with
          | cons within nonzero behind => exact ⟨within, rfl, nonzero, behind⟩

theorem padded_eq (p : Nat) : p ≤ padded p ∧ padded p < p + 4 ∧ padded p % 4 = 0 := by
  unfold padded calculatePadding
  omega

theorem padded_of_aligned {p : Nat} (aligned : p % 4 = 0) : padded p = p := by
  unfold padded calculatePadding
  omega

theorem padded_of_half {p : Nat} (half : p % 4 = 2) : padded p = p + 2 := by
  unfold padded calculatePadding
  omega

theorem ptrDec_eq {p o : Nat} (small : p < 2 ^ 64) (below : o ≤ p) : ptrDec p o = p - o := by
  unfold ptrDec
  omega

/-- A value that is there begins where the code looks for it. -/
theorem valueOf_present {p stop : Nat} (short : last < 2 ^ 63)
    (within : p + field content p 2 ≤ last) {length : Nat}
    (isLength : field content (p + 2) 2 = length) {value : Nat} (aligned : value % 4 = 0)
    (isStop : stop = value + 2 * length)
    (ends : p + field content p 2 = stop ∨ p + field content p 2 = padded stop) :
    valueOf content p = value := by
  have bounds := padded_eq stop
  have start : ptrDec (p + field content p 2) (2 * length) = p + field content p 2 - 2 * length :=
    ptrDec_eq (by omega) (by omega)
  unfold valueOf valueStart
  dsimp only
  rw [isLength, start]
  unfold calculatePadding
  rw [ptrDec_eq (by omega) (by omega)]
  unfold padded calculatePadding at ends
  omega

/-- Without a value, the code looks at the padded end of the record, or in front of an end
that is not padded. -/
theorem valueOf_absent {p : Nat} (short : last < 2 ^ 63)
    (within : p + field content p 2 ≤ last) (noValue : field content (p + 2) 2 = 0)
    (positive : 2 ≤ p) (even : (p + field content p 2) % 2 = 0) :
    valueOf content p =
      if (p + field content p 2) % 4 = 2 then p + field content p 2 - 2
      else p + field content p 2 := by
  have start : ptrDec (p + field content p 2) (2 * 0) = p + field content p 2 :=
    ptrDec_eq (by omega) (by omega)
  unfold valueOf valueStart
  dsimp only
  rw [noValue, start]
  unfold calculatePadding
  rw [ptrDec_eq (by omega) (by omega)]
  split <;> omega

/-- A record with a value, or one without that does not end where other data follows. -/
def Separated (data : ByteString) (p : Nat) : Prop :=
  field data (p + 2) 2 ≠ 0 ∨ (p + field data p 2) % 4 = 2 ∨ field data (p + field data p 2) 2 = 0

namespace RecordAt

variable {p : Nat} {key value : U16String}

theorem positive (record : RecordAt content last p key value) : 0 < field content p 2 := by
  have header : sizeofVersionInfoHeader = 6 := rfl
  obtain ⟨stop, stored, ends⟩ := record.stored
  have bounds := padded_eq stop
  have behind : keyEnd p key ≤ stop := by
    cases stored with
    | absent _ => exact le_rfl
    | present _ _ =>
        have padding := padded_eq (keyEnd p key)
        omega
  unfold keyEnd at behind
  omega

/-- The text that the code reads is the value exactly where the record is separated. -/
theorem value_iff (record : RecordAt data last p key value) (aligned : p % 4 = 0)
    (above : 2 ≤ p) (short : last < 2 ^ 63) (inside : last ≤ data.length) {text : U16String}
    (isText : StringAt data data.length (valueOf data p) text) :
    text = value ↔ Separated data p := by
  have header : sizeofVersionInfoHeader = 6 := rfl
  obtain ⟨stop, stored, ends⟩ := record.stored
  cases stored with
  | present length isValue =>
      have isStart : valueOf data p = padded (keyEnd p key) :=
        valueOf_present short record.within length (padded_eq _).2.2 rfl ends
      rw [isStart] at isText
      refine iff_of_true (isText.unique (isValue.mono inside)) (.inl ?_)
      rw [length]
      omega
  | absent noValue =>
      have isEnd : keyEnd p key = p + 6 + 2 * (key.length + 1) := rfl
      have bounds := padded_eq (keyEnd p key)
      have isStart := valueOf_absent short record.within noValue above (by omega)
      by_cases unpadded : (p + field data p 2) % 4 = 2
      · rw [if_pos unpadded] at isStart
        have closed := record.isKey.closed
        have isZero : p + field data p 2 - 2 = p + sizeofVersionInfoHeader + 2 * key.length := by
          omega
        rw [isStart, isZero] at isText
        exact iff_of_true (isText.unique (.nil (by omega) closed.2)) (.inr (.inl unpadded))
      · rw [if_neg unpadded] at isStart
        rw [isStart] at isText
        have separated : Separated data p ↔ field data (p + field data p 2) 2 = 0 := by
          unfold Separated
          simp [noValue, unpadded]
        rw [separated]
        cases isText with
        | nil _ zero => exact iff_of_true rfl zero
        | cons _ nonzero _ => exact iff_of_false (List.cons_ne_nil _ _) nonzero

end RecordAt

/-- A string, as the walk sees it. -/
def VersionString.entry (string : VersionString) : U16String × Nat := (string.key, string.position)

theorem lastAt_map_entry (key : U16String) (strings : List VersionString) :
    lastAt key (strings.map VersionString.entry) =
      (lastString key strings).map VersionString.position := by
  induction strings with
  | nil => rfl
  | cons string rest ih =>
      rw [List.map_cons, lastAt, ih, lastString, VersionString.entry]
      cases lastString key rest with
      | some _ => rfl
      | none => split <;> rfl

theorem mem_of_lastString {key : U16String} {strings : List VersionString}
    {string : VersionString} (isLast : lastString key strings = some string) :
    string ∈ strings ∧ string.key = key := by
  induction strings with
  | nil => contradiction
  | cons head rest ih =>
      rw [lastString] at isLast
      cases later : lastString key rest with
      | some found =>
          rw [later, Option.some_or] at isLast
          have inRest := ih (isLast ▸ later)
          exact ⟨List.mem_cons_of_mem _ inRest.1, inRest.2⟩
      | none =>
          rw [later, Option.none_or] at isLast
          split at isLast
          next same =>
            rw [← Option.some.inj isLast]
            exact ⟨List.mem_cons_self, same⟩
          next => contradiction

namespace TableAt

variable {p final bufferEnd : Nat} {strings : List VersionString}

/-- Each string has a record at a multiple of four. -/
theorem record (table : TableAt content last p strings final) (aligned : p % 4 = 0)
    (above : first ≤ p) {string : VersionString} (member : string ∈ strings) :
    RecordAt content last string.position string.key string.value ∧
      string.position % 4 = 0 ∧ first ≤ string.position := by
  induction table with
  | done => contradiction
  | @next p final key value strings isRecord rest ih =>
      have bounds := padded_eq (p + field content p 2)
      cases List.mem_cons.mp member with
      | inl same => exact same ▸ ⟨isRecord, aligned, above⟩
      | inr later => exact ih bounds.2.2 (by omega) later

/-- The walk goes through the table, and on behind it. -/
theorem walkAt_iff (table : TableAt data last p strings final) (inside : last ≤ data.length)
    (bound : last ≤ bufferEnd) {walk : List (U16String × Nat)} :
    WalkAt data bufferEnd p walk ↔
      ∃ behind, walk = strings.map VersionString.entry ++ behind ∧
        WalkAt data bufferEnd final behind := by
  induction table generalizing walk with
  | done => simp
  | @next p final key value strings isRecord _ ih =>
      have positive := isRecord.positive
      have within := isRecord.within
      have isKey := isRecord.isKey.mono inside
      constructor
      · intro walks
        cases walks with
        | done _ ends => omega
        | next _ _ isOther rest =>
            obtain ⟨behind, rfl, isBehind⟩ := ih.mp rest
            exact ⟨behind, by rw [isKey.unique isOther]; rfl, isBehind⟩
      · intro ⟨behind, same, isBehind⟩
        rw [same]
        exact .next positive (by omega) isKey (ih.mpr ⟨behind, rfl, isBehind⟩)

end TableAt

/-- The scan finds the child: padding is stepped over, as a child without a length. -/
theorem FileInfoAt.childrenAt {p child : Nat} (isChild : FileInfoAt data last p child)
    (inside : last ≤ data.length) : ChildrenAt data data.length p child := by
  have header : sizeofVersionInfoHeader = 6 := rfl
  cases isChild with
  | first isKey => exact .found (isKey.mono inside)
  | second isVar positive padding isKey =>
      have isFound : ChildrenAt data data.length (padded (p + field data p 2))
          (padded (p + field data p 2)) := .found (isKey.mono inside)
      have step : childStep (field data p 2) = field data p 2 := if_neg (by omega)
      apply ChildrenAt.next (isVar.mono inside) (by decide)
      rw [step]
      cases padding with
      | inl aligned => rwa [padded_of_aligned aligned] at isFound ⊢
      | inr unaligned =>
          have isPadded : padded (p + field data p 2) = p + field data p 2 + 2 := by
            unfold padded calculatePadding
            omega
          have stepTwo : childStep (field data (p + field data p 2) 2) = 2 := if_pos unaligned.2
          have within := (isKey.mono inside).within
          rw [isPadded] at isFound isKey within ⊢
          -- The key in front of the child starts with its type, and is none or longer.
          by_cases zero : field data (p + field data p 2 + 6) 2 = 0
          · apply ChildrenAt.next (.nil (by omega) zero) (by decide)
            rw [stepTwo]
            exact isFound
          · have isLonger : StringAt data data.length (p + field data p 2 + 6)
                (field data (p + field data p 2 + 6) 2 :: utf16 "StringFileInfo") :=
              .cons (by omega) zero (isKey.mono inside)
            apply ChildrenAt.next isLonger
            · intro same
              have lengths := congrArg List.length same
              rw [List.length_cons] at lengths
              omega
            · rw [stepTwo]
              exact isFound

end Records

/-! ## What is extracted -/

section Extraction

variable {data : ByteString} {wanted : List U16String} {offset size child : Nat}

/-- Where the chains of a version resource are there, the map is made of them. -/
theorem readVersion_yields (short : data.length < 2 ^ 63) (inside : offset + size ≤ data.length)
    (fixed : headerSize + 24 ≤ size)
    (isChild : ChildrenAt data data.length
      (offset + headerSize + (sizeofVsFixedfileinfo + 8)) child)
    {result : Option U16Map}
    (walks : Yields data (readStrings wanted (offset + headerSize + size) (data.length + 1)
      (firstString child) []) result) :
    Yields data (readVersion wanted offset size) (result.map fun ret =>
      ret.assign (utf16 "FileVersion")
        (versionFromFixed (field data (offset + 48) 4) (field data (offset + 52) 4))) := by
  have header : headerSize = 32 := rfl
  have info : sizeofVsFixedfileinfo = 52 := rfl
  rw [readVersion_eq wanted (by omega)]
  apply Yields.bind (Yields.deref (by omega))
  apply Yields.bind (Yields.deref (by omega))
  apply Yields.bind Yields.bufferTurns
  apply Yields.bind (findStringFileInfo_yields short isChild (by omega))
  cases result with
  | none => exact Yields.bind_none walks
  | some ret => exact Yields.bind walks Yields.pure

theorem Readable.text {walk : List (U16String × Nat)} (readable : Readable data wanted walk) :
    ∃ text : Nat → U16String, ∀ record ∈ walk, record.1 ∈ wanted →
      StringAt data data.length (valueOf data record.2) (text record.2) := by
  have choice : ∀ p, ∃ text, (∃ other, StringAt data data.length (valueOf data p) other) →
      StringAt data data.length (valueOf data p) text := by
    intro p
    by_cases isText : ∃ other, StringAt data data.length (valueOf data p) other
    · obtain ⟨text, isText⟩ := isText
      exact ⟨text, fun _ => isText⟩
    · exact ⟨[], fun found => absurd found isText⟩
  choose text isText using choice
  exact ⟨text, fun record member isWanted => isText _ (readable record member isWanted)⟩

/-- What the walk may meet: the values of the wanted records end inside the buffer, the last
string with a wanted key is separated from what follows, and behind the table there is no
record with a wanted key, or its value is the one of the table. The version of the fixed
information takes the place of a string. -/
structure Extractable (data : ByteString) (wanted : List U16String)
    (strings : List VersionString) (behind : List (U16String × Nat)) : Prop where
  readable : Readable data wanted (strings.map VersionString.entry ++ behind)
  separated : ∀ key ∈ wanted, key ≠ utf16 "FileVersion" → lastAt key behind = none →
    ∀ string, lastString key strings = some string → Separated data string.position
  agrees : ∀ key ∈ wanted, key ≠ utf16 "FileVersion" → ∀ p, lastAt key behind = some p →
    ∃ string, lastString key strings = some string ∧
      StringAt data data.length (valueOf data p) string.value

namespace VersionBlock

variable {strings : List VersionString}

/-- Where the strings of the first table begin. -/
theorem firstString_eq (block : VersionBlock data offset size child strings)
    (inside : offset + size ≤ data.length) (short : data.length < 2 ^ 63) :
    firstString child = stringTable child + 24 ∧ (stringTable child + 24) % 4 = 0 ∧
      offset ≤ child ∧ headerSize + 24 ≤ size := by
  have header : sizeofVersionInfoHeader = 6 := rfl
  have buffer : headerSize = 32 := rfl
  have info : sizeofVsFixedfileinfo = 52 := rfl
  have aligned := block.aligned
  have isChild : child % 4 = 0 ∧ offset + 92 ≤ child ∧ child + 8 ≤ offset + size := by
    have chain := (block.isChild.childrenAt inside).within
    cases block.isChild with
    | first isKey =>
        have within := isKey.within
        omega
    | second _ _ _ isKey =>
        have within := isKey.within
        have bounds := padded_eq (offset + 40 + sizeofVsFixedfileinfo +
          field data (offset + 40 + sizeofVsFixedfileinfo) 2)
        omega
  have table := (Pe.firstString_eq (show child < 2 ^ 63 by omega)).1
  have version : stringFileVersionLen = 28 := rfl
  have key : stringTableKeyLen = 16 := rfl
  rw [table]
  unfold tableOf padded calculatePadding stringTable
  omega

/-- For a key that is wanted, the last value in the walk is the string of the table. -/
theorem collected_iff (block : VersionBlock data offset size child strings)
    (inside : offset + size ≤ data.length) (short : data.length < 2 ^ 63)
    {behind : List (U16String × Nat)} {text : Nat → U16String}
    (isText : ∀ record ∈ strings.map VersionString.entry ++ behind, record.1 ∈ wanted →
      StringAt data data.length (valueOf data record.2) (text record.2))
    {key : U16String} (isWanted : key ∈ wanted) :
    (lastAt key (strings.map VersionString.entry ++ behind)).map text =
        (lastString key strings).map VersionString.value ↔
      (lastAt key behind = none →
        ∀ string, lastString key strings = some string → Separated data string.position) ∧
      ∀ p, lastAt key behind = some p → ∃ string, lastString key strings = some string ∧
        StringAt data data.length (valueOf data p) string.value := by
  have table := block.firstString_eq inside short
  rw [lastAt_append]
  cases isBehind : lastAt key behind with
  | some p =>
      have member := List.mem_append_right (strings.map VersionString.entry)
        (mem_of_lastAt isBehind)
      have isValue := isText _ member isWanted
      constructor
      · intro same
        refine ⟨nofun, fun position isPosition => ?_⟩
        obtain ⟨string, isLast, isSame⟩ := Option.map_eq_some_iff.mp same.symm
        refine ⟨string, isLast, ?_⟩
        rw [isSame, ← Option.some.inj isPosition]
        exact isValue
      · intro ⟨_, agrees⟩
        obtain ⟨string, isLast, isSame⟩ := agrees p rfl
        rw [isLast]
        exact congrArg some (isValue.unique isSame)
  | none =>
      rw [Option.none_or, lastAt_map_entry]
      cases isLast : lastString key strings with
      | none => simp
      | some string =>
          obtain ⟨member, isKey⟩ := mem_of_lastString isLast
          obtain ⟨record, aligned, above⟩ :=
            block.table.record table.2.1 (show 2 ≤ stringTable child + 24 by omega) member
          have inWalk : string.entry ∈ strings.map VersionString.entry ++ behind :=
            List.mem_append_left behind (List.mem_map.mpr ⟨string, member, rfl⟩)
          have entryWanted : string.entry.1 ∈ wanted := by
            rw [VersionString.entry, isKey]
            exact isWanted
          have isValue := isText _ inWalk entryWanted
          have separated := record.value_iff aligned above (by omega) inside isValue
          constructor
          · intro same
            refine ⟨fun _ other isOther => ?_, nofun⟩
            rw [← Option.some.inj isOther]
            exact separated.mp (Option.some.inj same)
          · intro ⟨holds, _⟩
            exact congrArg some (separated.mpr (holds rfl string rfl))

/-- The map is as recorded exactly when what lies behind the table and behind records
without a value lets it. -/
theorem extracts_iff (block : VersionBlock data offset size child strings)
    (inside : offset + size ≤ data.length) (short : data.length < 2 ^ 63)
    {context : PeContext} (buffer : context.fm.data = data) :
    (∃ ret, returned (readVersion wanted offset size) context = some ret ∧
        ∀ key, ret.lookup key = recorded wanted strings (field data (offset + 48) 4)
          (field data (offset + 52) 4) key) ↔
      ∃ behind, WalkAt data (offset + headerSize + size)
          (padded (stringTable child + field data (stringTable child) 2)) behind ∧
        Extractable data wanted strings behind := by
  have table := block.firstString_eq inside short
  have isChild := block.isChild.childrenAt inside
  have walkAt_iff := fun walk => @TableAt.walkAt_iff data (offset + size) _ _
    (offset + headerSize + size) _ block.table inside (by omega) walk
  -- What the program returns, for each way in which the walk goes on behind the table.
  have yields : ∀ {result}, Yields data (readStrings wanted (offset + headerSize + size)
      (data.length + 1) (stringTable child + 24) []) result →
      returned (readVersion wanted offset size) context = result.map fun ret =>
        ret.assign (utf16 "FileVersion")
          (versionFromFixed (field data (offset + 48) 4) (field data (offset + 52) 4)) := by
    intro result walks
    rw [← table.1] at walks
    exact (readVersion_yields short inside table.2.2.2 isChild walks).returned_eq buffer
  by_cases chain : ∃ walk, WalkAt data (offset + headerSize + size) (stringTable child + 24) walk ∧
      Readable data wanted walk
  · obtain ⟨walk, walks, readable⟩ := chain
    obtain ⟨behind, rfl, isBehind⟩ := (walkAt_iff walk).mp walks
    obtain ⟨text, isText⟩ := readable.text
    rw [yields (readStrings_yields short walks isText (by omega)), Option.map_some]
    have collected : ∀ key ∈ wanted, key ≠ utf16 "FileVersion" → _ := fun key isWanted _ =>
      block.collected_iff inside short isText isWanted
    constructor
    · intro ⟨ret, isRet, same⟩
      refine ⟨behind, isBehind, fun record member isWanted =>
        ⟨_, isText record member isWanted⟩, ?_, ?_⟩
      all_goals
        intro key isWanted differs
        have entry := same key
        rw [← Option.some.inj isRet, lookup_assign, if_neg differs, recorded, if_neg differs,
          if_pos isWanted, lookup_collected isWanted, List.lookup_nil, Option.or_none] at entry
      · exact ((collected key isWanted differs).mp entry).1
      · exact ((collected key isWanted differs).mp entry).2
    · intro ⟨other, isOther, extractable⟩
      obtain rfl := isBehind.unique isOther
      refine ⟨_, rfl, fun key => ?_⟩
      rw [lookup_assign, recorded]
      by_cases isVersion : key = utf16 "FileVersion"
      · rw [if_pos isVersion, if_pos isVersion]
      rw [if_neg isVersion, if_neg isVersion]
      by_cases isWanted : key ∈ wanted
      · rw [if_pos isWanted, lookup_collected isWanted, List.lookup_nil, Option.or_none]
        exact (collected key isWanted isVersion).mpr
          ⟨extractable.separated key isWanted isVersion, extractable.agrees key isWanted isVersion⟩
      · rw [if_neg isWanted, lookup_not_collected isWanted, List.lookup_nil]
  · rw [yields (readStrings_none short fun walk walks readable =>
      chain ⟨walk, walks, readable⟩), Option.map_none]
    refine iff_of_false (fun ⟨_, impossible, _⟩ => nomatch impossible) ?_
    intro ⟨behind, isBehind, extractable⟩
    exact chain ⟨_, (walkAt_iff _).mpr ⟨behind, rfl, isBehind⟩, extractable.readable⟩

end VersionBlock

end Extraction

/-! ## Blocks of a file -/

section Transfer

variable {data content : ByteString} {first last : Nat}

/-- Two texts with the same fields in a range. -/
def Agrees (data content : ByteString) (first last : Nat) : Prop :=
  ∀ offset size, first ≤ offset → offset + size ≤ last →
    field data offset size = field content offset size

theorem StringAt.congr {p : Nat} {text : U16String} (isText : StringAt content last p text)
    (agrees : Agrees data content first last) (above : first ≤ p) : StringAt data last p text := by
  induction isText with
  | nil within zero => exact .nil within ((agrees _ _ above within).trans zero)
  | cons within nonzero _ ih =>
      rw [← agrees _ _ above within] at nonzero ⊢
      exact .cons within nonzero (ih (by omega))

theorem RecordAt.congr {p : Nat} {key value : U16String}
    (record : RecordAt content last p key value) (agrees : Agrees data content first last)
    (above : first ≤ p) : RecordAt data last p key value := by
  have header : sizeofVersionInfoHeader = 6 := rfl
  have within := record.isKey.within
  have length := agrees p 2 above (by omega)
  have valueLength := agrees (p + 2) 2 (by omega) (by omega)
  obtain ⟨stop, stored, ends⟩ := record.stored
  refine ⟨record.isKey.congr agrees (by omega), ⟨stop, ?_, ?_⟩, ?_⟩
  · cases stored with
    | absent noValue => exact .absent (valueLength.trans noValue)
    | present isLength isValue =>
        have bounds := padded_eq (keyEnd p key)
        have behind : first ≤ keyEnd p key := by
          unfold keyEnd
          omega
        exact .present (valueLength.trans isLength) (isValue.congr agrees (by omega))
  · rw [length]
    exact ends
  · rw [length]
    exact record.within

theorem TableAt.congr {p final : Nat} {strings : List VersionString}
    (table : TableAt content last p strings final) (agrees : Agrees data content first last)
    (above : first ≤ p) : TableAt data last p strings final := by
  induction table with
  | done => exact .done
  | @next p final key value strings record _ ih =>
      have header : sizeofVersionInfoHeader = 6 := rfl
      have within := record.isKey.within
      have length := agrees p 2 above (by omega)
      have bounds := padded_eq (p + field content p 2)
      apply TableAt.next (record.congr agrees above)
      rw [length]
      exact ih (by omega)

theorem FileInfoAt.congr {p child : Nat} (isChild : FileInfoAt content last p child)
    (agrees : Agrees data content first last) (above : first ≤ p) :
    FileInfoAt data last p child ∧ first ≤ child := by
  have header : sizeofVersionInfoHeader = 6 := rfl
  cases isChild with
  | first isKey => exact ⟨.first (isKey.congr agrees (by omega)), above⟩
  | second isVar positive padding isKey =>
      have within := isVar.within
      have keyWithin := isKey.within
      have length := agrees p 2 above (by omega)
      have bounds := padded_eq (p + field content p 2)
      refine ⟨?_, by omega⟩
      rw [← length] at positive padding isKey keyWithin bounds ⊢
      apply FileInfoAt.second (isVar.congr agrees (by omega)) positive
      · cases padding with
        | inl aligned => exact .inl aligned
        | inr zero =>
            have behind := padded_of_half zero.1
            refine .inr ⟨zero.1, ?_⟩
            rw [agrees _ _ (by omega) (by omega)]
            exact zero.2
      · exact isKey.congr agrees (by omega)

/-- A block of the file is one of the buffer that it has been read into. -/
theorem VersionBlock.congr {offset size child : Nat} {strings : List VersionString}
    (block : VersionBlock content offset size child strings)
    (agrees : Agrees data content offset (offset + size)) :
    VersionBlock data offset size child strings ∧
      field data (stringTable child) 2 = field content (stringTable child) 2 := by
  have header : sizeofVersionInfoHeader = 6 := rfl
  have keyWithin := block.isKey.within
  obtain ⟨isChild, above⟩ := block.isChild.congr agrees (by omega)
  obtain ⟨digits, isDigits, count⟩ := block.language
  have within := isDigits.within
  have behind : offset ≤ stringTable child := by
    unfold stringTable
    omega
  have length := agrees (stringTable child) 2 behind (by omega)
  refine ⟨⟨block.aligned, block.isKey.congr agrees (by omega), ?_, ?_, isChild,
    ⟨digits, isDigits.congr agrees (by omega), count⟩, ?_⟩, length⟩
  · rw [agrees _ _ (by omega) (by omega)]
    exact block.fixed
  · rw [agrees _ _ le_rfl (by omega)]
    exact block.fits
  · rw [length]
    exact block.table.congr agrees (by omega)

end Transfer

/-- The buffer behind the mapping of the version resource. -/
def mappedData (reader : Reader) : ByteString :=
  (outcome (do parse; mapVersion) (PeContext.new reader)).2.fm.data

/-- For a well-formed block, `extract_info` leaves the strings that are wanted and the
version of the fixed information in the map exactly when the walk meets nothing else behind
the table, and the last string with a wanted key has a value or is separated from what
follows it. -/
theorem version_extracted_iff {reader : Reader} {content : ByteString}
    {offset size child : Nat} {strings : List VersionString} (wanted : List U16String)
    (returns : reader.Returns content) (isMapped : VersionMapped reader offset size)
    (block : VersionBlock content offset size child strings) :
    (∃ ret, returned (do parse; extractInfo wanted) (PeContext.new reader) = some ret ∧
        ∀ key, ret.lookup key = recorded wanted strings (dwFileVersionMs content offset)
          (dwFileVersionLs content offset) key) ↔
      ∃ behind, WalkAt (mappedData reader) (offset + headerSize + size)
          (padded (stringTable child + field content (stringTable child) 2)) behind ∧
        Extractable (mappedData reader) wanted strings behind := by
  obtain ⟨context, ran, range, split⟩ := isMapped.context returns
  have buffer : context.fm.data = mappedData reader := by
    unfold mappedData outcome
    rw [ran]
  have agrees : Agrees (mappedData reader) content offset (offset + size) := by
    intro position length above below
    rw [← buffer]
    exact range.agrees above below
  have length : (mappedData reader).length = content.length := by
    rw [← buffer, range.mapped.buffer, returns.fileSize]
  have short := returns.signed
  have inside := range.inside
  obtain ⟨isBlock, table⟩ := block.congr agrees
  have enough := (isBlock.firstString_eq (by omega) (by omega)).2.2.2
  have header : headerSize = 32 := rfl
  have reading : returned (do parse; extractInfo wanted) (PeContext.new reader) =
      returned (readVersion wanted offset size) context := by
    unfold returned
    rw [split]
  unfold dwFileVersionMs dwFileVersionLs
  rw [reading, ← agrees (offset + 40 + 8) 4 (by omega) (by omega),
    ← agrees (offset + 40 + 12) 4 (by omega) (by omega), ← table]
  exact isBlock.extracts_iff (by omega) (by omega) buffer

/-- A version resource with a record without a value in front of one with a value. -/
def emptyValueFile : ByteString :=
  fileOf 672 (sampleHeaders ++ versionTree 300 ++
    [(336, 2, 300), (338, 2, 52)] ++ textAt 342 "VS_VERSION_INFO" ++
    [(376, 4, 0xFEEF04BD), (384, 4, 65538), (388, 4, 196612)] ++
    [(428, 2, 138), (432, 2, 1)] ++ textAt 434 "StringFileInfo" ++
    [(464, 2, 102), (468, 2, 1)] ++ textAt 470 "040904b0" ++
    [(488, 2, 36), (492, 2, 1)] ++ textAt 494 "ProductVersion" ++
    [(524, 2, 42), (526, 2, 5), (528, 2, 1)] ++ textAt 530 "CompanyName" ++ textAt 556 "ACME" ++
    [(568, 2, 68), (572, 2, 1)] ++ textAt 574 "VarFileInfo" ++
    [(600, 2, 36), (602, 2, 4)] ++ textAt 606 "Translation" ++ [(632, 4, 0x04b00409)])

theorem emptyValueFile_signed : emptyValueFile.length < 2 ^ 63 := by
  decide +kernel

/-- The strings of the resource. -/
def emptyValueStrings : List VersionString :=
  [⟨utf16 "ProductVersion", [], 488⟩, ⟨utf16 "CompanyName", utf16 "ACME", 524⟩]

theorem emptyValueFile_block : VersionBlock emptyValueFile 336 300 428 emptyValueStrings where
  aligned := rfl
  isKey := by decide +kernel
  fixed := by decide +kernel
  fits := by decide +kernel
  isChild := .first (by decide +kernel)
  language := ⟨utf16 "040904b0", by decide +kernel, by decide +kernel⟩
  table := by
    have first : stringTable 428 + 24 = 488 := rfl
    have second : padded (488 + field emptyValueFile 488 2) = 524 := by decide +kernel
    have final : padded (524 + field emptyValueFile 524 2) =
        padded (stringTable 428 + field emptyValueFile (stringTable 428) 2) := by decide +kernel
    rw [first]
    apply TableAt.next
    · refine ⟨by decide +kernel, ⟨_, .absent (by decide +kernel), .inl ?_⟩, by decide +kernel⟩
      decide +kernel
    · rw [second, ← final]
      apply TableAt.next _ .done
      refine ⟨by decide +kernel,
        ⟨_, .present (by decide +kernel) (by decide +kernel), .inl ?_⟩, by decide +kernel⟩
      decide +kernel

/-- The value that is read for the record without one is the head of the next record. -/
theorem emptyValueFile_overread :
    (Reader.ofContent emptyValueFile emptyValueFile_signed).Returns emptyValueFile ∧
      VersionMapped (Reader.ofContent emptyValueFile emptyValueFile_signed) 336 300 ∧
      VersionBlock emptyValueFile 336 300 428 emptyValueStrings ∧
      (∃ ret, returned (do parse; extractInfo versionKeys)
          (PeContext.new (Reader.ofContent emptyValueFile emptyValueFile_signed)) = some ret ∧
        ret.lookup (utf16 "ProductVersion") = some (42 :: 5 :: 1 :: utf16 "CompanyName")) ∧
      recorded versionKeys emptyValueStrings (dwFileVersionMs emptyValueFile 336)
        (dwFileVersionLs emptyValueFile 336) (utf16 "ProductVersion") = some [] := by
  refine ⟨Reader.ofContent_returns emptyValueFile_signed, ?_, emptyValueFile_block, ?_, ?_⟩
  · decide +kernel
  · refine ⟨[(utf16 "FileVersion", utf16 "1.2.3.4"), (utf16 "CompanyName", utf16 "ACME"),
      (utf16 "ProductVersion", 42 :: 5 :: 1 :: utf16 "CompanyName")], ?_, ?_⟩
    · decide +kernel
    · decide +kernel
  · decide +kernel

/-- The value of the other record is read. -/
theorem emptyValueFile_company :
    ∃ behind, WalkAt (mappedData (Reader.ofContent emptyValueFile emptyValueFile_signed))
        (336 + headerSize + 300)
        (padded (stringTable 428 + field emptyValueFile (stringTable 428) 2)) behind ∧
      Extractable (mappedData (Reader.ofContent emptyValueFile emptyValueFile_signed))
        [utf16 "CompanyName"] emptyValueStrings behind := by
  apply (version_extracted_iff [utf16 "CompanyName"]
    (Reader.ofContent_returns emptyValueFile_signed) (by decide +kernel)
    emptyValueFile_block).mp
  refine ⟨[(utf16 "FileVersion", utf16 "1.2.3.4"), (utf16 "CompanyName", utf16 "ACME")],
    by decide +kernel, fun key => ?_⟩
  have version : versionFromFixed (dwFileVersionMs emptyValueFile 336)
      (dwFileVersionLs emptyValueFile 336) = utf16 "1.2.3.4" := by decide +kernel
  have company : lastString (utf16 "CompanyName") emptyValueStrings =
      some ⟨utf16 "CompanyName", utf16 "ACME", 524⟩ := by decide +kernel
  rw [recorded, version, List.lookup_cons, List.lookup_cons]
  by_cases isVersion : key = utf16 "FileVersion"
  · rw [isVersion]
    simp
  · by_cases isCompany : key = utf16 "CompanyName"
    · rw [isCompany, company]
      decide
    · rw [if_neg isVersion, beq_false_of_ne isVersion, beq_false_of_ne isCompany]
      simp [isCompany]

end Cdcm.Backend.Pe
