import Cdcm.Backend.Pe.VersionInfo

/-!
# The layout of version information

`extract_info` checks none of the lengths that it finds in the data entry of the version
resource.  It ends and stays inside the entry exactly when the entry is laid out as it
expects: the fixed information is there, a chain of children leads to `StringFileInfo`, and
a chain of strings fills the string table, each with a key and, where it is wanted, a value
that end inside the entry.
-/

namespace Cdcm.Backend.Pe

open Hoare

/-! ## Layouts -/

section Layout

variable (content : ByteString) (first last : Nat) (wanted : List U16String)

/-- A text with a zero behind it, in front of some end. -/
inductive StringAt : Nat → U16String → Prop where
  | nil {p : Nat} (within : p + 2 ≤ last) (zero : field content p 2 = 0) : StringAt p []
  | cons {p : Nat} {rest : U16String} (within : p + 2 ≤ last)
      (nonzero : field content p 2 ≠ 0) (behind : StringAt (p + 2) rest) :
      StringAt p (field content p 2 :: rest)

/-- A chain of children with other keys that leads to the child `StringFileInfo`. -/
inductive ChildrenAt : Nat → Nat → Prop where
  | found {vih : Nat}
      (isKey : StringAt content last (vih + sizeofVersionInfoHeader) (utf16 "StringFileInfo")) :
      ChildrenAt vih vih
  | next {vih child : Nat} {key : U16String}
      (isKey : StringAt content last (vih + sizeofVersionInfoHeader) key)
      (differs : key ≠ utf16 "StringFileInfo")
      (behind : ChildrenAt (vih + childStep (field content vih 2)) child) :
      ChildrenAt vih child

/-- Where the value of a string begins. -/
def valueOf (p : Nat) : Nat :=
  valueStart (p + field content p 2) (field content (p + 2) 2)

/-- The value of a string lies inside. -/
def ValueInside (p : Nat) : Prop :=
  first ≤ valueOf content p ∧ ∃ text, StringAt content last (valueOf content p) text

/-- A position is padded to a multiple of four. -/
def padded (p : Nat) : Nat := p + calculatePadding p

/-- A chain of strings: it is over at a string without a length or one that is too long for
the bound of the walk, which is a header behind the end. -/
inductive StringsAt : Nat → Prop where
  | done {p : Nat} (within : p + 2 ≤ last)
      (ends : field content p 2 = 0 ∨ last + headerSize < p + field content p 2) :
      StringsAt p
  | next {p : Nat} {key : U16String} (positive : 0 < field content p 2)
      (fits : p + field content p 2 ≤ last + headerSize)
      (isKey : StringAt content last (p + sizeofVersionInfoHeader) key)
      (value : key ∈ wanted → ValueInside content first last p)
      (behind : StringsAt (padded (p + field content p 2))) : StringsAt p

/-- The strings of the first table of a child. -/
def tableOf (vih : Nat) : Nat :=
  padded (padded (vih + (sizeofVersionInfoHeader + stringFileVersionLen)) +
    (sizeofVersionInfoHeader + stringTableKeyLen))

/-- The layout that `extract_info` expects of a version resource. -/
def VersionLayout (offset size : Nat) : Prop :=
  headerSize + 24 ≤ size ∧
    ∃ vih, ChildrenAt content (offset + size)
        (offset + headerSize + (sizeofVsFixedfileinfo + 8)) vih ∧
      StringsAt content offset (offset + size) wanted (tableOf vih)

end Layout

section Layout

variable {content : ByteString} {last : Nat}

theorem StringAt.within {p : Nat} {text : U16String} (isText : StringAt content last p text) :
    p + 2 ≤ last := by
  cases isText with
  | nil within _ => exact within
  | cons within _ _ => exact within

theorem StringAt.unique {p : Nat} {text other : U16String}
    (isText : StringAt content last p text) (isOther : StringAt content last p other) :
    text = other := by
  induction isText generalizing other with
  | nil _ zero =>
      cases isOther with
      | nil _ _ => rfl
      | cons _ nonzero _ => exact absurd zero nonzero
  | cons _ nonzero _ ih =>
      cases isOther with
      | nil _ zero => exact absurd zero nonzero
      | cons _ _ behind => rw [ih behind]

theorem ChildrenAt.within {vih child : Nat} (isChild : ChildrenAt content last vih child) :
    vih ≤ child ∧ child + 8 ≤ last := by
  induction isChild with
  | found isKey => exact ⟨le_rfl, isKey.within⟩
  | next _ _ _ ih => exact ⟨by omega, ih.2⟩

theorem ChildrenAt.unique {vih child other : Nat} (isChild : ChildrenAt content last vih child)
    (isOther : ChildrenAt content last vih other) : child = other := by
  induction isChild with
  | found isKey =>
      cases isOther with
      | found _ => rfl
      | next isOtherKey differs _ => exact absurd (isOtherKey.unique isKey) differs
  | next isKey differs _ ih =>
      cases isOther with
      | found isOtherKey => exact absurd (isKey.unique isOtherKey) differs
      | next _ _ behind => exact ih behind

end Layout

/-! ## Staying inside -/

/-- A field outside some bounds. -/
def Access.strays (first last : Nat) : Access → Bool
  | .mapped _ _ => false
  | .field offset size => ¬ (first ≤ offset ∧ offset + size ≤ last)

/-- How many fields of a trace are outside. -/
def strayCount (first last : Nat) (trace : List Access) : Nat :=
  trace.countP (Access.strays first last)

/-- Programs only add to the trace. -/
def Grows {α : Type} (program : Method α) : Prop :=
  ∀ context, context.trace <+: (outcome program context).2.trace

namespace Grows

variable {α β : Type}

theorem pure {value : α} : Grows (Pure.pure value) :=
  fun _ => List.prefix_rfl

theorem throw {reason : Stop} : Grows (MonadExcept.throw reason : Method α) :=
  fun _ => List.prefix_rfl

theorem bind {program : Method α} {rest : α → Method β} (first : Grows program)
    (second : ∀ value, Grows (rest value)) : Grows (program >>= rest) := by
  intro context
  have grows := first context
  unfold outcome at grows ⊢
  rw [EStateM.run] at grows ⊢
  simp only [Bind.bind, EStateM.bind]
  cases ran : program context with
  | ok value next =>
      rw [ran] at grows
      exact grows.trans (second value next)
  | error reason next =>
      rw [ran] at grows
      exact grows

theorem ite {condition : Prop} [Decidable condition] {yes no : Method α}
    (holds : Grows yes) (fails : Grows no) : Grows (if condition then yes else no) := by
  split
  · exact holds
  · exact fails

theorem deref {offset size : Nat} : Grows (Pe.deref offset size) := by
  intro context
  unfold outcome
  rw [deref_run]
  by_cases within : offset + size ≤ context.fm.data.length
  · rw [if_pos within]
    exact List.prefix_append ..
  · rw [if_neg within]
    exact List.prefix_append ..

theorem bufferTurns : Grows bufferTurns :=
  fun _ => List.prefix_rfl

theorem readUnits {turns p : Nat} : Grows (readUnits turns p) := by
  induction turns generalizing p with
  | zero => exact throw
  | succ turns ih =>
      apply bind deref
      intro unit
      apply ite pure
      exact bind ih fun _ => pure

theorem readString {p : Nat} : Grows (readString p) :=
  bind bufferTurns fun _ => readUnits

theorem findStringFileInfo {turns vih : Nat} : Grows (findStringFileInfo turns vih) := by
  induction turns generalizing vih with
  | zero => exact throw
  | succ turns ih =>
      apply bind readString
      intro key
      apply ite pure
      exact bind deref fun _ => ih

theorem readValue {wanted : List U16String} {strVih vend : Nat} {k : U16String} {ret : U16Map} :
    Grows (readValue wanted strVih vend k ret) :=
  ite (bind deref fun _ => bind readString fun _ => pure) pure

theorem readStrings {wanted : List U16String} {bufferEnd turns strVih : Nat} {ret : U16Map} :
    Grows (readStrings wanted bufferEnd turns strVih ret) := by
  induction turns generalizing strVih ret with
  | zero => exact throw
  | succ turns ih =>
      apply bind deref
      intro wLength
      apply ite _ pure
      exact bind readString fun _ => bind readValue fun _ => ih

end Grows

/-- A program follows a layout: it ends without reading anything outside, with a value of
the layout, or there is no such value and it reads something outside. -/
def Follows (reader : Reader) (first last : Nat) (context : PeContext) {α : Type}
    (program : Method α) (layout : α → Prop) : Prop :=
  (∃ value next, layout value ∧ program.run context = .ok value next ∧ Mapped reader next ∧
      context.trace <+: next.trace ∧
      strayCount first last next.trace = strayCount first last context.trace) ∨
    ((∀ value, ¬ layout value) ∧
      strayCount first last context.trace <
        strayCount first last (outcome program context).2.trace)

theorem strayCount_mono {first last : Nat} {trace later : List Access}
    (grows : trace <+: later) : strayCount first last trace ≤ strayCount first last later :=
  grows.sublist.countP_le

namespace Follows

variable {reader : Reader} {first last : Nat} {context : PeContext} {α β : Type}

theorem pure {value : α} {layout : α → Prop} (mapped : Mapped reader context)
    (holds : layout value) : Follows reader first last context (Pure.pure value) layout :=
  .inl ⟨value, context, holds, rfl, mapped, List.prefix_rfl, rfl⟩

theorem congr {program : Method α} {layout other : α → Prop}
    (follows : Follows reader first last context program layout)
    (same : ∀ value, layout value ↔ other value) :
    Follows reader first last context program other := by
  have equal : layout = other := funext fun value => propext (same value)
  rwa [← equal]

/-- Where the first program ends, the rest decides. Values of the first layout that differ
must not matter for the rest. -/
theorem bind {program : Method α} {rest : α → Method β} {layout : α → Prop}
    (behind : α → β → Prop) (start : Follows reader first last context program layout)
    (grows : ∀ value, Grows (rest value))
    (irrelevant : ∀ value other result, layout value → layout other → behind other result →
      behind value result)
    (second : ∀ value next, layout value → Mapped reader next →
      context.trace <+: next.trace →
      Follows reader first last next (rest value) (behind value)) :
    Follows reader first last context (program >>= rest)
      (fun result => ∃ value, layout value ∧ behind value result) := by
  cases start with
  | inl ends =>
      obtain ⟨value, next, isValue, ran, mapped, longer, count⟩ := ends
      cases second value next isValue mapped longer with
      | inl ends =>
          obtain ⟨result, final, isResult, ranRest, mapped, longerRest, countRest⟩ := ends
          exact .inl ⟨result, final, ⟨value, isValue, isResult⟩, (run_bind ran).trans ranRest,
            mapped, longer.trans longerRest, countRest.trans count⟩
      | inr strays =>
          right
          constructor
          · rintro result ⟨other, isOther, isResult⟩
            exact strays.1 result (irrelevant value other result isValue isOther isResult)
          · unfold outcome at strays ⊢
            rw [run_bind ran, ← count]
            exact strays.2
  | inr strays =>
      right
      constructor
      · rintro result ⟨value, isValue, -⟩
        exact strays.1 value isValue
      · apply lt_of_lt_of_le strays.2
        apply strayCount_mono
        unfold outcome
        rw [EStateM.run, EStateM.run]
        simp only [Bind.bind, EStateM.bind]
        cases program context with
        | ok value next => exact grows value next
        | error reason next => exact List.prefix_rfl

theorem ite {condition : Prop} [Decidable condition] {yes no : Method α} {layout : α → Prop}
    (holds : condition → Follows reader first last context yes layout)
    (fails : ¬ condition → Follows reader first last context no layout) :
    Follows reader first last context (if condition then yes else no) layout := by
  split
  · next condition => exact holds condition
  · next condition => exact fails condition

/-- A field is read inside, or outside. -/
theorem deref {content : ByteString} (returns : reader.Returns content)
    (mapped : Mapped reader context)
    (covers : ∀ offset size, first ≤ offset → offset + size ≤ last →
      Covers reader.fileSize context.trace offset size)
    (offset size : Nat) :
    Follows reader first last context (Pe.deref offset size) (fun value =>
      first ≤ offset ∧ offset + size ≤ last ∧ value = field content offset size) := by
  by_cases inside : first ≤ offset ∧ offset + size ≤ last
  · have covered := covers offset size inside.1 inside.2
    have within : offset + size ≤ context.fm.data.length := by
      rw [mapped.buffer]
      exact covered.within
    have runs := (deref_runs mapped covered :
      Runs reader context (Pe.deref offset size) _ fun _ => False) context rfl
    rw [deref_run, if_pos within] at runs
    left
    refine ⟨_, _, ⟨inside.1, inside.2, runs.2.2.2 content returns⟩,
      (deref_run offset size context).trans (if_pos within), runs.1, runs.2.1, ?_⟩
    simp [strayCount, Access.strays, inside]
  · right
    constructor
    · rintro value ⟨above, below, -⟩
      exact inside ⟨above, below⟩
    · have noted : (outcome (Pe.deref offset size) context).2.trace =
          context.trace ++ [.field offset size] := by
        unfold outcome
        rw [deref_run]
        by_cases within : offset + size ≤ context.fm.data.length
        · rw [if_pos within]
        · rw [if_neg within]
      have strays : Access.strays first last (.field offset size) = true := by
        exact decide_eq_true inside
      rw [noted, strayCount, strayCount, List.countP_append, List.countP_singleton, strays]
      simp

end Follows

/-! ## Strings and loops -/

/-- A file, of which a range is mapped. -/
structure RangeMapped (reader : Reader) (content : ByteString) (first last : Nat)
    (context : PeContext) : Prop where
  returns : reader.Returns content
  mapped : Mapped reader context
  inside : last ≤ content.length
  covers : ∀ offset size, first ≤ offset → offset + size ≤ last →
    Covers reader.fileSize context.trace offset size

section Walks

variable {reader : Reader} {content : ByteString} {first last : Nat} {context next : PeContext}

theorem RangeMapped.later (range : RangeMapped reader content first last context)
    (mapped : Mapped reader next) (longer : context.trace <+: next.trace) :
    RangeMapped reader content first last next where
  returns := range.returns
  mapped := mapped
  inside := range.inside
  covers offset size above below := (range.covers offset size above below).mono longer

/-- The buffer holds the file there. -/
theorem RangeMapped.agrees (range : RangeMapped reader content first last context)
    {offset size : Nat} (above : first ≤ offset) (below : offset + size ≤ last) :
    field context.fm.data offset size = field content offset size := by
  have covered := range.covers offset size above below
  have within : offset + size ≤ context.fm.data.length := by
    rw [range.mapped.buffer]
    exact covered.within
  have runs := (deref_runs range.mapped covered :
    Runs reader context (Pe.deref offset size) _ fun _ => False) context rfl
  rw [deref_run, if_pos within] at runs
  exact runs.2.2.2 content range.returns

/-- A field is read, and the rest decides with its value. -/
theorem RangeMapped.deref_bind (range : RangeMapped reader content first last context)
    {offset size : Nat} {β : Type} {rest : Nat → Method β} (behind : β → Prop)
    (grows : ∀ value, Grows (rest value))
    (second : ∀ next, RangeMapped reader content first last next → first ≤ offset →
      offset + size ≤ last →
      Follows reader first last next (rest (field content offset size)) behind) :
    Follows reader first last context (Pe.deref offset size >>= rest)
      (fun result => first ≤ offset ∧ offset + size ≤ last ∧ behind result) := by
  apply Follows.congr (Follows.bind (fun _ => behind)
    (Follows.deref range.returns range.mapped range.covers offset size) grows _ _)
  · intro result
    constructor
    · rintro ⟨_, ⟨above, below, -⟩, isResult⟩
      exact ⟨above, below, isResult⟩
    · rintro ⟨above, below, isResult⟩
      exact ⟨_, ⟨above, below, rfl⟩, isResult⟩
  · exact fun _ _ _ _ _ isResult => isResult
  · rintro _ after ⟨above, below, rfl⟩ mapped longer
    exact second after (range.later mapped longer) above below

theorem bufferTurns_follows (range : RangeMapped reader content first last context) :
    Follows reader first last context bufferTurns
      (fun turns => turns = content.length + 1) := by
  left
  refine ⟨_, context, ?_, rfl, range.mapped, List.prefix_rfl, rfl⟩
  rw [range.mapped.buffer, range.returns.fileSize]

theorem readUnits_follows {turns p : Nat}
    (range : RangeMapped reader content first last context) (positive : 0 < turns)
    (enough : last + 2 ≤ p + 2 * turns) :
    Follows reader first last context (readUnits turns p)
      (fun text => first ≤ p ∧ StringAt content last p text) := by
  induction turns generalizing p context with
  | zero => omega
  | succ turns ih =>
      have short := range.returns.signed
      have inside := range.inside
      apply Follows.congr (range.deref_bind (StringAt content last p) _ _)
      · intro text
        constructor
        · exact fun ⟨above, _, isText⟩ => ⟨above, isText⟩
        · exact fun ⟨above, isText⟩ => ⟨above, isText.within, isText⟩
      · intro unit
        apply Grows.ite Grows.pure
        exact Grows.bind Grows.readUnits fun _ => Grows.pure
      intro next range above below
      apply Follows.ite
      · exact fun zero => Follows.pure range.mapped (.nil below zero)
      intro nonzero
      have behind : ptrAdd p 2 = p + 2 := ptrAdd_eq (by omega)
      rw [behind]
      apply Follows.congr (Follows.bind
        (fun rest text => text = field content p 2 :: rest)
        (ih range (by omega) (by omega)) (fun _ => Grows.pure) _ _)
      · intro text
        constructor
        · rintro ⟨rest, ⟨_, isRest⟩, rfl⟩
          exact .cons below nonzero isRest
        · intro isText
          cases isText with
          | nil _ zero => exact absurd zero nonzero
          | cons _ _ isRest => exact ⟨_, ⟨by omega, isRest⟩, rfl⟩
      · rintro rest other text ⟨_, isRest⟩ ⟨_, isOther⟩ isText
        rw [isRest.unique isOther]
        exact isText
      · intro rest next _ mapped _
        exact Follows.pure mapped rfl

theorem readString_follows {p : Nat} (range : RangeMapped reader content first last context) :
    Follows reader first last context (readString p)
      (fun text => first ≤ p ∧ StringAt content last p text) := by
  have inside := range.inside
  apply Follows.congr (Follows.bind
    (fun _ text => first ≤ p ∧ StringAt content last p text)
    (bufferTurns_follows range) (fun _ => Grows.readUnits) _ _)
  · intro text
    constructor
    · exact fun ⟨_, _, isText⟩ => isText
    · exact fun isText => ⟨_, rfl, isText⟩
  · exact fun _ _ _ _ _ isText => isText
  · rintro _ next rfl mapped longer
    exact readUnits_follows (range.later mapped longer) (by omega) (by omega)

theorem childStep_pos (vih : Nat) :
    0 < childStep (field content vih 2) ∧ childStep (field content vih 2) < 2 ^ 16 := by
  have bound := field_lt content vih 2
  unfold childStep
  split
  · omega
  · omega

theorem findStringFileInfo_follows {turns vih : Nat}
    (range : RangeMapped reader content first last context) (positive : 0 < turns)
    (enough : last < vih + turns) (above : first ≤ vih)
    (noWrap : vih + sizeofVersionInfoHeader < 2 ^ 64) :
    Follows reader first last context (findStringFileInfo turns vih)
      (ChildrenAt content last vih) := by
  induction turns generalizing vih context with
  | zero => omega
  | succ turns ih =>
      have short := range.returns.signed
      have inside := range.inside
      have header : sizeofVersionInfoHeader = 6 := rfl
      have keyAt : ptrAdd vih sizeofVersionInfoHeader = vih + sizeofVersionInfoHeader :=
        ptrAdd_eq noWrap
      rw [findStringFileInfo, keyAt]
      apply Follows.congr (Follows.bind
        (fun key child => if key = utf16 "StringFileInfo" then child = vih
          else ChildrenAt content last (vih + childStep (field content vih 2)) child)
        (readString_follows range) _ _ _)
      · intro child
        constructor
        · rintro ⟨key, ⟨_, isKey⟩, isChild⟩
          split at isChild
          · next same =>
            rw [isChild]
            exact .found (same ▸ isKey)
          · next differs => exact .next isKey differs isChild
        · intro isChild
          cases isChild with
          | found isKey => exact ⟨_, ⟨by omega, isKey⟩, by rw [if_pos rfl]⟩
          | next isKey differs behind =>
              exact ⟨_, ⟨by omega, isKey⟩, by rwa [if_neg differs]⟩
      · intro key
        exact Grows.ite Grows.pure (Grows.bind Grows.deref fun _ => Grows.findStringFileInfo)
      · rintro key other child ⟨_, isKey⟩ ⟨_, isOther⟩ isChild
        rw [isKey.unique isOther]
        exact isChild
      · rintro key next ⟨_, isKey⟩ mapped longer
        have range := range.later mapped longer
        have within := isKey.within
        have step : 0 < childStep (field content vih 2) ∧
            childStep (field content vih 2) < 2 ^ 16 :=
          childStep_pos vih
        apply Follows.ite
        · intro same
          exact Follows.pure mapped (by rw [if_pos same])
        · intro differs
          have behind : ptrAdd vih (childStep (field content vih 2)) =
              vih + childStep (field content vih 2) := ptrAdd_eq (by omega)
          apply Follows.congr (range.deref_bind
            (ChildrenAt content last (vih + childStep (field content vih 2))) _ _)
          · intro child
            rw [if_neg differs]
            exact ⟨fun isChild => isChild.2.2, fun isChild => ⟨above, by omega, isChild⟩⟩
          · exact fun _ => Grows.findStringFileInfo
          · intro next range _ _
            rw [behind]
            exact ih range (by omega) (by omega) (by omega) (by omega)

variable {wanted : List U16String}

theorem readValue_follows {p : Nat} {key : U16String} {ret : U16Map}
    (range : RangeMapped reader content first last context) (above : first ≤ p)
    (below : p + 8 ≤ last) :
    Follows reader first last context
      (readValue wanted p (p + field content p 2) key ret)
      (fun _ => key ∈ wanted → ValueInside content first last p) := by
  have short := range.returns.signed
  have inside := range.inside
  have lengthAt : ptrAdd p 2 = p + 2 := ptrAdd_eq (by omega)
  apply Follows.ite
  · intro isWanted
    rw [lengthAt]
    apply Follows.congr (range.deref_bind
      (fun _ => ValueInside content first last p) _ _)
    · intro _
      exact ⟨fun isValue _ => isValue.2.2,
        fun isValue => ⟨by omega, by omega, isValue isWanted⟩⟩
    · exact fun _ => Grows.bind Grows.readString fun _ => Grows.pure
    · intro next range _ _
      apply Follows.congr (Follows.bind (fun _ _ => True) (readString_follows range)
        (fun _ => Grows.pure) (fun _ _ _ _ _ _ => trivial)
        (fun _ _ _ mapped _ => Follows.pure mapped trivial))
      intro _
      constructor
      · rintro ⟨text, ⟨above, isText⟩, -⟩
        exact ⟨above, text, isText⟩
      · rintro ⟨above, text, isText⟩
        exact ⟨text, ⟨above, isText⟩, trivial⟩
  · intro notWanted
    exact Follows.pure range.mapped fun isWanted => absurd isWanted notWanted

theorem padded_bounds (p : Nat) : p ≤ padded p ∧ padded p ≤ p + 3 := by
  unfold padded calculatePadding
  omega

theorem align_eq {p : Nat} (bound : p + 3 < 2 ^ 64) : align p = padded p := by
  have bounds := (padded_bounds p).2
  exact Nat.mod_eq_of_lt (lt_of_le_of_lt bounds bound)

theorem firstString_eq {vih : Nat} (bound : vih < 2 ^ 63) :
    firstString vih = tableOf vih ∧ vih ≤ tableOf vih := by
  have header : sizeofVersionInfoHeader = 6 := rfl
  have version : stringFileVersionLen = 28 := rfl
  have key : stringTableKeyLen = 16 := rfl
  have child : ptrAdd vih (sizeofVersionInfoHeader + stringFileVersionLen) =
      vih + (sizeofVersionInfoHeader + stringFileVersionLen) := ptrAdd_eq (by omega)
  have childBounds := padded_bounds (vih + (sizeofVersionInfoHeader + stringFileVersionLen))
  have childAligned : align (vih + (sizeofVersionInfoHeader + stringFileVersionLen)) =
      padded (vih + (sizeofVersionInfoHeader + stringFileVersionLen)) := align_eq (by omega)
  unfold firstString tableOf
  dsimp only
  rw [child, childAligned]
  have table : ptrAdd (padded (vih + (sizeofVersionInfoHeader + stringFileVersionLen)))
      (sizeofVersionInfoHeader + stringTableKeyLen) =
        padded (vih + (sizeofVersionInfoHeader + stringFileVersionLen)) +
          (sizeofVersionInfoHeader + stringTableKeyLen) := Nat.mod_eq_of_lt (by omega)
  have tableBounds := padded_bounds
    (padded (vih + (sizeofVersionInfoHeader + stringFileVersionLen)) +
      (sizeofVersionInfoHeader + stringTableKeyLen))
  rw [table, align_eq (by omega)]
  exact ⟨rfl, by omega⟩

theorem readStrings_follows {turns p : Nat} {ret : U16Map}
    (range : RangeMapped reader content first last context) (positive : 0 < turns)
    (enough : last < p + turns) (above : first ≤ p) :
    Follows reader first last context
      (readStrings wanted (last + headerSize) turns p ret)
      (fun _ => StringsAt content first last wanted p) := by
  induction turns generalizing p context ret with
  | zero => omega
  | succ turns ih =>
      have short := range.returns.signed
      have inside := range.inside
      have header : headerSize = 32 := rfl
      have length := field_lt content p 2
      apply Follows.congr (range.deref_bind
        (fun _ => StringsAt content first last wanted p) _ _)
      · intro _
        constructor
        · exact fun isWalk => isWalk.2.2
        · intro isWalk
          refine ⟨above, ?_, isWalk⟩
          cases isWalk with
          | done within _ => exact within
          | next _ _ isKey _ _ =>
              have within := isKey.within
              omega
      · intro wLength
        apply Grows.ite _ Grows.pure
        exact Grows.bind Grows.readString fun _ =>
          Grows.bind Grows.readValue fun _ => Grows.readStrings
      intro next range _ within
      have keyAt : ptrAdd p sizeofVersionInfoHeader = p + sizeofVersionInfoHeader :=
        ptrAdd_eq (by
          have header : sizeofVersionInfoHeader = 6 := rfl
          omega)
      have vend : ptrAdd p (field content p 2) = p + field content p 2 :=
        ptrAdd_eq (by omega)
      rw [keyAt, vend]
      apply Follows.ite
      · intro continues
        have behindAt : align (p + field content p 2) = padded (p + field content p 2) :=
          align_eq (by omega)
        rw [behindAt]
        apply Follows.congr (Follows.bind
          (fun key _ => (key ∈ wanted → ValueInside content first last p) ∧
            StringsAt content first last wanted (padded (p + field content p 2)))
          (readString_follows range)
          (fun _ => Grows.bind Grows.readValue fun _ => Grows.readStrings) _ _)
        · intro _
          constructor
          · rintro ⟨key, ⟨_, isKey⟩, value, behind⟩
            exact .next continues.1 continues.2 isKey value behind
          · intro isWalk
            cases isWalk with
            | done _ ends => omega
            | next _ _ isKey value behind =>
                exact ⟨_, ⟨by omega, isKey⟩, value, behind⟩
        · rintro key other _ ⟨_, isKey⟩ ⟨_, isOther⟩ holds
          rw [isKey.unique isOther]
          exact holds
        · rintro key next ⟨_, isKey⟩ mapped longer
          have range := range.later mapped longer
          have keyWithin := isKey.within
          have below : p + 8 ≤ last := keyWithin
          apply Follows.congr (Follows.bind
            (fun _ _ => StringsAt content first last wanted
              (padded (p + field content p 2)))
            (readValue_follows range above below) (fun _ => Grows.readStrings)
            (fun _ _ _ _ _ isWalk => isWalk) _)
          · intro _
            exact ⟨fun ⟨_, value, behind⟩ => ⟨value, behind⟩,
              fun ⟨value, behind⟩ => ⟨[], value, behind⟩⟩
          · intro ret next _ mapped longer
            have grows := (padded_bounds (p + field content p 2)).1
            exact ih (range.later mapped longer) (by omega) (by omega) (by omega)
      · intro ends
        exact Follows.pure range.mapped (.done within (by omega))

end Walks

/-! ## The whole entry -/

/-- A run from a state ends, and each field that it reads lies inside the bounds. -/
def StaysInside {α : Type} (first last : Nat) (program : Method α) (context : PeContext) :
    Prop :=
  (outcome program context).1 = none ∧
    ∀ access ∈ (outcome program context).2.trace.drop context.trace.length,
      Access.strays first last access = false

section Entry

variable {reader : Reader} {content : ByteString} {first last : Nat} {context : PeContext}
  {wanted : List U16String}

/-- A program that follows a layout stays inside exactly when there is a value of it. -/
theorem Follows.staysInside_iff {α : Type} {program : Method α} {layout : α → Prop}
    (follows : Follows reader first last context program layout) (grows : Grows program) :
    StaysInside first last program context ↔ ∃ value, layout value := by
  obtain ⟨added, split⟩ := grows context
  have count : strayCount first last (outcome program context).2.trace =
      strayCount first last context.trace + strayCount first last added := by
    rw [← split]
    exact List.countP_append ..
  have new : (outcome program context).2.trace.drop context.trace.length = added := by
    rw [← split, List.drop_left]
  have none_iff : strayCount first last added = 0 ↔
      ∀ access ∈ added, Access.strays first last access = false := by
    rw [strayCount, List.countP_eq_zero]
    simp
  rw [StaysInside, new, ← none_iff]
  cases follows with
  | inl ends =>
      obtain ⟨value, next, isValue, ran, -, -, same⟩ := ends
      have final : outcome program context = (none, next) := by
        unfold outcome
        rw [ran]
      rw [final] at count ⊢
      dsimp only at count
      exact ⟨fun _ => ⟨value, isValue⟩, fun _ => ⟨rfl, by omega⟩⟩
  | inr strays =>
      constructor
      · intro ⟨_, noStrays⟩
        omega
      · intro ⟨value, isValue⟩
        exact absurd isValue (strays.1 value)

theorem readVersion_grows {offset size : Nat} : Grows (readVersion wanted offset size) := by
  apply Grows.bind Grows.deref
  intro ms
  apply Grows.bind Grows.deref
  intro ls
  apply Grows.bind Grows.bufferTurns
  intro turns
  apply Grows.bind Grows.findStringFileInfo
  intro vih
  exact Grows.bind Grows.readStrings fun _ => Grows.pure

/-- The reading of a mapped entry follows the layout of version information. -/
theorem readVersion_follows {offset size : Nat}
    (range : RangeMapped reader content offset (offset + size) context) :
    Follows reader offset (offset + size) context (readVersion wanted offset size)
      (fun _ => VersionLayout content wanted offset size) := by
  have short := range.returns.signed
  have inside := range.inside
  have header : headerSize = 32 := rfl
  have fixed : sizeofVsFixedfileinfo = 52 := rfl
  have restGrows : ∀ ms ls turns vih, Grows (do
      let ret ← readStrings wanted (offset + size + headerSize) turns (firstString vih) []
      return ret.assign (utf16 "FileVersion") (versionFromFixed ms ls)) :=
    fun _ _ _ _ => Grows.bind Grows.readStrings fun _ => Grows.pure
  rw [readVersion_eq wanted (by omega), Nat.add_right_comm offset headerSize size]
  apply Follows.congr (range.deref_bind
    (fun _ => VersionLayout content wanted offset size) _ _)
  · intro _
    exact ⟨fun is => is.2.2, fun is => ⟨by omega, by have := is.1; omega, is⟩⟩
  · intro ms
    apply Grows.bind Grows.deref fun ls => Grows.bind Grows.bufferTurns fun turns =>
      Grows.bind Grows.findStringFileInfo fun vih => restGrows ms ls turns vih
  intro next range _ _
  apply Follows.congr (range.deref_bind (fun _ => ∃ vih,
    ChildrenAt content (offset + size) (offset + headerSize + (sizeofVsFixedfileinfo + 8)) vih ∧
      StringsAt content offset (offset + size) wanted (tableOf vih)) _ _)
  · intro _
    exact ⟨fun is => ⟨by omega, is.2.2⟩, fun is => ⟨by omega, by have := is.1; omega, is.2⟩⟩
  · exact fun ls => Grows.bind Grows.bufferTurns fun turns =>
      Grows.bind Grows.findStringFileInfo fun vih => restGrows _ ls turns vih
  intro next range _ _
  apply Follows.congr (Follows.bind (fun _ _ => ∃ vih,
    ChildrenAt content (offset + size) (offset + headerSize + (sizeofVsFixedfileinfo + 8)) vih ∧
      StringsAt content offset (offset + size) wanted (tableOf vih)) (bufferTurns_follows range)
    (fun turns => Grows.bind Grows.findStringFileInfo fun vih => restGrows _ _ turns vih)
    (fun _ _ _ _ _ is => is) _)
  · exact fun _ => ⟨fun ⟨_, _, is⟩ => is, fun is => ⟨_, rfl, is⟩⟩
  rintro turns next rfl mapped longer
  have range := range.later mapped longer
  apply Follows.congr (Follows.bind
    (fun vih _ => StringsAt content offset (offset + size) wanted (tableOf vih))
    (findStringFileInfo_follows range (by omega) (by omega) (by omega) (by
      have header : sizeofVersionInfoHeader = 6 := rfl
      omega))
    (fun vih => restGrows _ _ _ vih) _ _)
  · exact fun _ => Iff.rfl
  · intro vih other _ isChild isOther isWalk
    rw [isChild.unique isOther]
    exact isWalk
  rintro vih next isChild mapped longer
  have range := range.later mapped longer
  have within := isChild.within
  have table : firstString vih = tableOf vih ∧ vih ≤ tableOf vih := firstString_eq (by omega)
  rw [table.1]
  apply Follows.congr (Follows.bind
    (fun _ _ => True) (readStrings_follows range (by omega) (by omega) (by omega))
    (fun _ => Grows.pure) (fun _ _ _ _ _ _ => trivial)
    (fun _ _ _ mapped _ => Follows.pure mapped trivial))
  exact fun _ => ⟨fun ⟨_, isWalk, _⟩ => isWalk, fun isWalk => ⟨[], isWalk, trivial⟩⟩

end Entry

/-! ## Where the entry is -/

section Locating

variable {reader : Reader} {context : PeContext} {wanted : List U16String}

theorem findVersion_reads {nodes rest : List Node} (mapped : Mapped reader context)
    (covered : NodesCovered reader.fileSize nodes context) (among : ∀ node ∈ rest, node ∈ nodes) :
    Reads reader context (findVersion nodes rest) (fun found next =>
      ∀ dataEntry, found = some dataEntry →
        Covers reader.fileSize next.trace dataEntry 16) := by
  induction rest generalizing context with
  | nil => exact Runs.pure mapped nofun
  | cons node rest ih =>
      have restAmong := fun other member => among other (List.mem_cons_of_mem node member)
      obtain ⟨type, nodeCovered, rooted⟩ := covered node (among node List.mem_cons_self)
      unfold findVersion
      cases resource : node.resource with
      | resourceDirectory pointer | directoryEntry pointer | dataString pointer =>
          exact ih mapped covered restAmong
      | dataEntry dataEntry =>
          rw [resource] at type nodeCovered
          obtain ⟨position, entry, is, found⟩ := rooted type.symm
          obtain ⟨root, isRoot, isEntry⟩ := Option.map_eq_some_iff.mp found
          have rootCovered := (covered root (List.mem_of_getElem? isRoot)).2.1
          rw [isEntry] at rootCovered
          have dataCovers : Covers reader.fileSize context.trace dataEntry 16 := nodeCovered
          have entryCovers : Covers reader.fileSize context.trace entry 8 := rootCovered
          dsimp only
          rw [is, Option.bind_some, isRoot]
          dsimp only
          unfold directoryEntry
          rw [isEntry]
          apply Runs.bind (Q := fun value next => value = entry ∧ next = context)
            (Runs.pure mapped ⟨rfl, rfl⟩)
          rintro _ _ mapped _ ⟨rfl, rfl⟩
          apply Runs.bind (deref_runs mapped (entryCovers.first (by omega)))
          intro nameOffset _ mapped grows _
          apply Runs.ite
          · intro _
            apply Runs.pure mapped
            rintro _ ⟨⟩
            exact dataCovers.mono grows
          · intro _
            exact ih mapped (covered.mono grows) restAmong

theorem mapVersion_reads (mapped : Mapped reader context) :
    Reads reader context mapVersion (fun entry next =>
      ∀ range, entry = some range → Covers reader.fileSize next.trace range.1 range.2) := by
  have small := reader.fileSize_lt
  apply Runs.bind (discoveryNodesPeres_reads mapped)
  intro nodes _ mapped _ covered
  apply Runs.bind (findVersion_reads mapped covered fun _ member => member)
  intro found _ mapped _ dataCovers
  cases found with
  | none => exact Runs.pure mapped nofun
  | some dataEntry =>
      have covers := dataCovers dataEntry rfl
      apply Runs.bind (deref_runs mapped (covers.first (by omega)))
      intro offsetToData _ mapped grows _
      have covers := covers.mono grows
      apply Runs.bind (peRva2ofs_reads mapped)
      intro offsetData _ mapped grows _
      have covers := covers.mono grows
      apply Runs.bind (deref_runs mapped (covers.member small (by omega)))
      intro dataEntrySize _ mapped _ ⟨bound, _⟩
      apply Runs.bind (mapChunkByPointer_runs mapped (by omega))
      intro isMapped _ mapped _ ⟨isCovered, _⟩
      apply Runs.ite
      · intro claimed
        apply Runs.pure mapped
        rintro _ ⟨⟩
        exact isCovered claimed
      · exact fun _ => Runs.pure mapped nofun

end Locating

/-! ## Reading inside the entry -/

section Inside

variable (reader : Reader) (wanted : List U16String) (offset size : Nat)

/-- Where the run of a reader's file has mapped the version resource. -/
def VersionMapped : Prop :=
  returned (do parse; mapVersion) (PeContext.new reader) = some (some (offset, size))

instance : Decidable (VersionMapped reader offset size) :=
  inferInstanceAs (Decidable (returned (do parse; mapVersion) (PeContext.new reader) =
    some (some (offset, size))))

/-- `extract_info` ends, and what it reads behind the mapping of the version resource lies
inside the resource. -/
def ReadsInside : Prop :=
  (outcome (do parse; extractInfo wanted) (PeContext.new reader)).1 = none ∧
    ∀ access ∈ (outcome (do parse; extractInfo wanted) (PeContext.new reader)).2.trace.drop
        (outcome (do parse; mapVersion) (PeContext.new reader)).2.trace.length,
      Access.strays offset (offset + size) access = false

instance : Decidable (ReadsInside reader wanted offset size) :=
  inferInstanceAs (Decidable (_ ∧ ∀ access ∈ List.drop _ _, _))

end Inside

/-- Behind the mapping, the resource is in the buffer, and `extract_info` reads it. -/
theorem VersionMapped.context {reader : Reader} {content : ByteString} {offset size : Nat}
    (isMapped : VersionMapped reader offset size) (returns : reader.Returns content) :
    ∃ context, EStateM.run (do parse; mapVersion) (PeContext.new reader) =
        .ok (some (offset, size)) context ∧
      RangeMapped reader content offset (offset + size) context ∧
      ∀ wanted, EStateM.run (do parse; extractInfo wanted) (PeContext.new reader) =
        (readVersion wanted offset size).run context := by
  obtain ⟨context, ran⟩ := returned_eq_some_iff.mp isMapped
  have reads : Reads reader (PeContext.new reader) (do parse; mapVersion : Method _)
      (fun entry next => ∀ range, entry = some range →
        Covers reader.fileSize next.trace range.1 range.2) := by
    apply Runs.bind (parse_reads (mapped_new reader returns.isOpen))
    intro _ _ mapped _ _
    exact mapVersion_reads mapped
  have after := reads _ rfl
  rw [ran] at after
  obtain ⟨mapped, -, isCovered⟩ := after
  have covers := isCovered _ rfl
  refine ⟨context, ran, ⟨returns, mapped, returns.fileSize ▸ covers.within, ?_⟩, ?_⟩
  · intro position length above below
    obtain ⟨start, total, member, low, high, within⟩ := covers
    dsimp only at low high
    exact ⟨start, total, member, by omega, by omega, within⟩
  · intro wanted
    obtain ⟨rest, parts, reads⟩ : ∃ rest, (do parse; extractInfo wanted : Method U16Map) =
        (do parse; mapVersion : Method _) >>= rest ∧
          rest (some (offset, size)) = readVersion wanted offset size :=
      ⟨_, (bind_assoc _ _ _).symm, rfl⟩
    rw [parts, run_bind ran, reads]

/-- `extract_info` ends and stays inside the version resource exactly when the resource has
the layout that it expects. -/
theorem readsInside_iff {reader : Reader} {content : ByteString} {offset size : Nat}
    (wanted : List U16String) (returns : reader.Returns content)
    (isMapped : VersionMapped reader offset size) :
    ReadsInside reader wanted offset size ↔ VersionLayout content wanted offset size := by
  obtain ⟨context, ran, range, split⟩ := isMapped.context returns
  have mapping : outcome (do parse; mapVersion) (PeContext.new reader) = (none, context) := by
    unfold outcome
    rw [ran]
  have reading : outcome (do parse; extractInfo wanted) (PeContext.new reader) =
      outcome (readVersion wanted offset size) context := by
    unfold outcome
    rw [split]
  rw [ReadsInside, reading, mapping]
  have follows : Follows reader offset (offset + size) context (readVersion wanted offset size) _ :=
    readVersion_follows range
  have iff := follows.staysInside_iff readVersion_grows
  rw [StaysInside] at iff
  rw [iff]
  exact ⟨fun ⟨_, isLayout⟩ => isLayout, fun isLayout => ⟨[], isLayout⟩⟩

/-- A tree whose only resource is a version resource at 336. -/
def versionTree (size : Nat) : List (Nat × Nat × Nat) :=
  [(262, 2, 1), (264, 4, rtVersion), (268, 4, 2 ^ 31 + 24),
    (286, 2, 1), (288, 4, 1), (292, 4, 2 ^ 31 + 48),
    (310, 2, 1), (312, 4, 1033), (316, 4, 72), (320, 4, 336), (324, 4, size)]

/-- The fields of a text. -/
def textAt (offset : Nat) (characters : String) : List (Nat × Nat × Nat) :=
  (utf16 characters).zipIdx.map fun unit => (offset + 2 * unit.2, 2, unit.1)

/-- A version resource of a hundred zeros. -/
def emptyVersionFile : ByteString := fileOf 436 (sampleHeaders ++ versionTree 100)

theorem emptyVersionFile_signed : emptyVersionFile.length < 2 ^ 63 := by
  decide +kernel

/-- The scan for `StringFileInfo` leaves the resource. -/
theorem emptyVersionFile_left :
    (Reader.ofContent emptyVersionFile emptyVersionFile_signed).Returns emptyVersionFile ∧
      VersionMapped (Reader.ofContent emptyVersionFile emptyVersionFile_signed) 336 100 ∧
      ¬ ReadsInside (Reader.ofContent emptyVersionFile emptyVersionFile_signed) versionKeys 336
        100 := by
  refine ⟨Reader.ofContent_returns emptyVersionFile_signed, ?_, ?_⟩
  · decide +kernel
  · decide +kernel

/-- A version resource with one string. -/
def companyFile : ByteString :=
  fileOf 536 (sampleHeaders ++ versionTree 200 ++ textAt 434 "StringFileInfo" ++
    [(488, 2, 42), (490, 2, 5)] ++ textAt 494 "CompanyName" ++ textAt 520 "ACME")

theorem companyFile_signed : companyFile.length < 2 ^ 63 := by
  decide +kernel

/-- The resource with one string has the layout. -/
theorem companyFile_layout : VersionLayout companyFile versionKeys 336 200 := by
  apply (readsInside_iff _ (Reader.ofContent_returns companyFile_signed) _).mp
  · decide +kernel
  · decide +kernel

end Cdcm.Backend.Pe
