import Cdcm.Backend.Pe.VersionWalk

/-!
# Translation of addresses

`pe_rva2ofs` on a table of sections, in words of 64 bits that note whether a subtraction went
below zero.  It subtracts the start of a section from an address inside of that section, and
that of the only section from an address anywhere else.
-/

namespace Cdcm.Backend.Pe

open Hoare

/-! ## The code -/

/-- `IMAGE_SECTION_HEADER`, as far as addresses are translated with it. -/
structure ImageSectionHeader where
  virtualSize : BitVec 32
  virtualAddress : BitVec 32
  sizeOfRawData : BitVec 32
  pointerToRawData : BitVec 32
  deriving DecidableEq

/-- The variable `rva`, and whether a subtraction from it has wrapped. -/
structure Rva where
  value : BitVec 64
  wrapped : Bool
  deriving DecidableEq

/-- `rva -= number`. -/
def Rva.sub (rva : Rva) (number : BitVec 32) : Rva :=
  ⟨rva.value - number.setWidth 64, rva.wrapped || rva.value < number.setWidth 64⟩

/-- `rva += number`. -/
def Rva.add (rva : Rva) (number : BitVec 32) : Rva :=
  ⟨rva.value + number.setWidth 64, rva.wrapped⟩

/-- `section_size`. -/
def ImageSectionHeader.sectionSize (header : ImageSectionHeader) : BitVec 64 :=
  if header.virtualSize = 0 then header.sizeOfRawData.setWidth 64
  else header.virtualSize.setWidth 64

/-- The address becomes an offset in the raw data of a section. -/
def ImageSectionHeader.translate (header : ImageSectionHeader) (rva : Rva) : Rva :=
  (rva.sub header.virtualAddress).add header.pointerToRawData

/-- The loop over the sections. -/
def sectionLoop (rva : Rva) : List ImageSectionHeader → Option Rva
  | [] => none
  | header :: rest =>
      if header.virtualAddress.setWidth 64 ≤ rva.value then
        if rva.value < header.virtualAddress.setWidth 64 + header.sectionSize then
          some (header.translate rva)
        else sectionLoop rva rest
      else sectionLoop rva rest

/-- What is behind the loop: a file with a single section, or the address itself. -/
def singleSection (rva : Rva) : List ImageSectionHeader → Rva
  | [header] => header.translate rva
  | _ => rva

/-- `pe_rva2ofs`, where the table is null when it has no sections. -/
def rva2ofs (sections : List ImageSectionHeader) (rva : BitVec 64) : Rva :=
  if rva = 0 ∨ sections = [] then ⟨0, false⟩
  else
    match sectionLoop ⟨rva, false⟩ sections with
    | some translated => translated
    | none => singleSection ⟨rva, false⟩ sections

/-! ## What is wanted of it -/

/-- An address is in the virtual range of a section. -/
def ImageSectionHeader.Contains (header : ImageSectionHeader) (rva : BitVec 32) : Prop :=
  header.virtualAddress.toNat ≤ rva.toNat ∧
    rva.toNat < header.virtualAddress.toNat +
      if header.virtualSize = 0 then header.sizeOfRawData.toNat else header.virtualSize.toNat

instance (header : ImageSectionHeader) (rva : BitVec 32) : Decidable (header.Contains rva) :=
  inferInstanceAs (Decidable (_ ∧ _))

/-- The first section that contains an address is at some place of the table. -/
def FirstAt (sections : List ImageSectionHeader) (rva : BitVec 32) (i : Nat)
    (header : ImageSectionHeader) : Prop :=
  sections[i]? = some header ∧ header.Contains rva ∧
    ∀ j < i, ∀ earlier, sections[j]? = some earlier → ¬earlier.Contains rva

/-- The offset of an address of 32 bits. -/
def offsetOf (sections : List ImageSectionHeader) (rva : BitVec 32) : Nat :=
  (rva2ofs sections (rva.setWidth 64)).value.toNat

/-- No subtraction wraps, the offset of an address is the one in the first section that
contains it, and the offsets of this section's addresses are in their order. -/
structure Translates (sections : List ImageSectionHeader) (rva : BitVec 32) : Prop where
  noWrap : (rva2ofs sections (rva.setWidth 64)).wrapped = false
  located : ∀ i header, FirstAt sections rva i header → rva ≠ 0 →
    offsetOf sections rva =
      header.pointerToRawData.toNat + (rva.toNat - header.virtualAddress.toNat)
  monotone : ∀ i header lower, FirstAt sections rva i header → FirstAt sections lower i header →
    lower < rva → offsetOf sections lower < offsetOf sections rva

/-- An address in front of the only section. -/
def InFront (sections : List ImageSectionHeader) (rva : BitVec 32) : Prop :=
  rva ≠ 0 ∧ ∃ header, sections = [header] ∧ rva < header.virtualAddress

/-! ## The turns -/

variable {sections : List ImageSectionHeader} {header : ImageSectionHeader} {rva : BitVec 32}

theorem toNat_wide (number : BitVec 32) : (number.setWidth 64).toNat = number.toNat :=
  BitVec.toNat_setWidth_of_le (by decide)

theorem toNat_sectionSize (header : ImageSectionHeader) : header.sectionSize.toNat =
    if header.virtualSize = 0 then header.sizeOfRawData.toNat else header.virtualSize.toNat := by
  rw [ImageSectionHeader.sectionSize]
  split <;> exact toNat_wide _

theorem sectionSize_lt (header : ImageSectionHeader) : header.sectionSize.toNat < 2 ^ 32 := by
  rw [toNat_sectionSize]
  split <;> exact BitVec.isLt _

/-- The end of a section does not wrap. -/
theorem lt_end_iff {value : BitVec 64} :
    value < header.virtualAddress.setWidth 64 + header.sectionSize ↔
      value.toNat < header.virtualAddress.toNat + header.sectionSize.toNat := by
  have address := header.virtualAddress.isLt
  have size := sectionSize_lt header
  rw [BitVec.lt_def, BitVec.toNat_add, toNat_wide, Nat.mod_eq_of_lt (by omega)]

theorem start_le_iff {value : BitVec 64} :
    header.virtualAddress.setWidth 64 ≤ value ↔ header.virtualAddress.toNat ≤ value.toNat := by
  rw [BitVec.le_def, toNat_wide]

/-- The comparisons of the loop are the ones of the range. -/
theorem contains_iff : header.Contains rva ↔
    header.virtualAddress.setWidth 64 ≤ rva.setWidth 64 ∧
      rva.setWidth 64 < header.virtualAddress.setWidth 64 + header.sectionSize := by
  rw [start_le_iff, lt_end_iff, toNat_wide, toNat_sectionSize]
  rfl

/-- The translation subtracts and adds modulo 2^64. -/
theorem translate_toNat (header : ImageSectionHeader) (value : BitVec 64) :
    (header.translate ⟨value, false⟩).value.toNat =
      ptrAdd ((value.toNat + 2 ^ 64 - header.virtualAddress.toNat) % 2 ^ 64)
        header.pointerToRawData.toNat := by
  have address := header.virtualAddress.isLt
  have turned : 2 ^ 64 - header.virtualAddress.toNat + value.toNat =
      value.toNat + 2 ^ 64 - header.virtualAddress.toNat := by omega
  rw [ImageSectionHeader.translate, Rva.add, Rva.sub, BitVec.toNat_add, BitVec.toNat_sub,
    toNat_wide, toNat_wide, turned, ptrAdd]

/-- In a section, the translation does not wrap. -/
theorem translate_inside {value : BitVec 64}
    (behind : header.virtualAddress.toNat ≤ value.toNat) (small : value.toNat < 2 ^ 34) :
    (header.translate ⟨value, false⟩).value.toNat =
      value.toNat - header.virtualAddress.toNat + header.pointerToRawData.toNat := by
  have address := header.virtualAddress.isLt
  have pointer := header.pointerToRawData.isLt
  have turned : value.toNat + 2 ^ 64 - header.virtualAddress.toNat =
      value.toNat - header.virtualAddress.toNat + 2 ^ 64 := by omega
  rw [translate_toNat, turned, Nat.add_mod_right, Nat.mod_eq_of_lt (by omega), ptrAdd,
    Nat.mod_eq_of_lt (by omega)]

theorem translate_wrapped : (header.translate ⟨rva.setWidth 64, false⟩).wrapped =
    decide (rva < header.virtualAddress) := by
  rw [ImageSectionHeader.translate, Rva.add, Rva.sub, Bool.false_or]
  simp only [BitVec.lt_def, toNat_wide]

/-- The loop stops at the first section that contains the address. -/
theorem sectionLoop_eq : sectionLoop ⟨rva.setWidth 64, false⟩ sections =
    (sections.find? fun header => header.Contains rva).map
      fun header => header.translate ⟨rva.setWidth 64, false⟩ := by
  induction sections with
  | nil => rfl
  | cons header rest ih =>
      rw [sectionLoop, List.find?_cons]
      by_cases contains : header.Contains rva
      · have both := contains_iff.mp contains
        rw [if_pos both.1, if_pos both.2, decide_eq_true contains]
        rfl
      · rw [decide_eq_false contains, ih]
        by_cases above : header.virtualAddress.setWidth 64 ≤ rva.setWidth 64
        · rw [if_pos above, if_neg fun below => contains (contains_iff.mpr ⟨above, below⟩)]
        · rw [if_neg above]

theorem FirstAt.find {i : Nat} (first : FirstAt sections rva i header) :
    sections.find? (fun header => header.Contains rva) = some header := by
  obtain ⟨isAt, contains, before⟩ := first
  obtain ⟨inTable, isHeader⟩ := List.getElem?_eq_some_iff.mp isAt
  refine List.find?_eq_some_iff_getElem.mpr ⟨decide_eq_true contains, i, inTable, isHeader, ?_⟩
  intro j earlier
  have outside := before j earlier _ (List.getElem?_eq_getElem (earlier.trans inTable))
  rw [decide_eq_false outside]
  rfl

/-! ## The offsets -/

theorem rva2ofs_zero : rva2ofs sections 0 = ⟨0, false⟩ := by simp [rva2ofs]

theorem wide_eq_zero : rva.setWidth 64 = 0 ↔ rva = 0 := by
  rw [← BitVec.toNat_inj, ← BitVec.toNat_inj, toNat_wide]
  rfl

/-- In the range of a section, its raw data are reached. -/
theorem FirstAt.translated {i : Nat} (first : FirstAt sections rva i header)
    (nonzero : rva ≠ 0) :
    rva2ofs sections (rva.setWidth 64) = header.translate ⟨rva.setWidth 64, false⟩ := by
  have some_ : sections ≠ [] := by
    intro none
    rw [none] at first
    exact nomatch first.1
  have found := @sectionLoop_eq sections rva
  rw [first.find, Option.map_some] at found
  rw [rva2ofs, if_neg (not_or_intro (mt wide_eq_zero.mp nonzero) some_), found]

theorem FirstAt.offset {i : Nat} (first : FirstAt sections rva i header) (nonzero : rva ≠ 0) :
    offsetOf sections rva =
      header.pointerToRawData.toNat + (rva.toNat - header.virtualAddress.toNat) := by
  have small := rva.isLt
  have behind : header.virtualAddress.toNat ≤ (rva.setWidth 64).toNat :=
    toNat_wide rva ▸ first.2.1.1
  rw [offsetOf, first.translated nonzero, translate_inside behind (by rw [toNat_wide]; omega),
    toNat_wide, Nat.add_comm]

/-- The offsets of the addresses of a section are in their order. -/
theorem FirstAt.offset_lt {i : Nat} {lower : BitVec 32} (first : FirstAt sections rva i header)
    (firstLower : FirstAt sections lower i header) (less : lower < rva) :
    offsetOf sections lower < offsetOf sections rva := by
  have behind := firstLower.2.1.1
  rw [BitVec.lt_def] at less
  have nonzero : rva ≠ 0 := by
    intro zero
    rw [zero] at less
    exact Nat.not_lt_zero _ less
  rw [first.offset nonzero]
  by_cases zero : lower = 0
  · have start : header.virtualAddress.toNat = 0 := by
      rw [zero] at behind
      exact Nat.le_zero.mp behind
    have none : offsetOf sections lower = 0 := by
      rw [offsetOf, wide_eq_zero.mpr zero, rva2ofs_zero]
      rfl
    omega
  · rw [firstLower.offset zero]
    omega

/-- The only subtraction that wraps is the one from an address in front of the only
section. -/
theorem rva2ofs_wrapped_iff :
    (rva2ofs sections (rva.setWidth 64)).wrapped = true ↔ InFront sections rva := by
  by_cases early : rva.setWidth 64 = 0 ∨ sections = []
  · rw [rva2ofs, if_pos early]
    refine iff_of_false nofun fun ⟨nonzero, header, single, _⟩ => ?_
    cases early with
    | inl zero => exact nonzero (wide_eq_zero.mp zero)
    | inr none => exact absurd (none.symm.trans single) nofun
  · rw [rva2ofs, if_neg early, sectionLoop_eq]
    cases found : sections.find? fun header => header.Contains rva with
    | some header =>
        have contains : header.Contains rva := by simpa using List.find?_some found
        have member := List.mem_of_find?_eq_some found
        rw [Option.map_some]
        dsimp only
        rw [translate_wrapped, decide_eq_true_eq, BitVec.lt_def]
        refine iff_of_false (Nat.not_lt.mpr contains.1) fun ⟨_, only, single, less⟩ => ?_
        rw [single, List.mem_singleton] at member
        rw [BitVec.lt_def] at less
        exact Nat.not_lt.mpr (member ▸ contains.1) less
    | none =>
        rw [Option.map_none]
        have nonzero : rva ≠ 0 := fun zero => early (.inl (wide_eq_zero.mpr zero))
        match sections with
        | [header] =>
            dsimp only [singleSection]
            rw [translate_wrapped, decide_eq_true_eq]
            exact ⟨fun less => ⟨nonzero, header, rfl, less⟩, fun ⟨_, only, single, less⟩ =>
              (List.cons.inj single).1 ▸ less⟩
        | [] => exact iff_of_false nofun fun ⟨_, _, single, _⟩ => nomatch single
        | _ :: _ :: _ => exact iff_of_false nofun fun ⟨_, _, single, _⟩ => nomatch single

/-! ## The headers in a file -/

/-- The header that a pointer points to. -/
def headerAt (data : ByteString) (sectionPtr : Nat) : ImageSectionHeader where
  virtualSize := .ofNat 32 (field data (sectionPtr + 8) 4)
  virtualAddress := .ofNat 32 (field data (sectionPtr + 12) 4)
  sizeOfRawData := .ofNat 32 (field data (sectionPtr + 16) 4)
  pointerToRawData := .ofNat 32 (field data (sectionPtr + 20) 4)

/-- Where the table of sections is in the buffer. -/
def HeadersInside (data : ByteString) (pointers : List Nat) : Prop :=
  ∀ pointer ∈ pointers, pointer + 40 ≤ data.length

section Headers

variable {data : ByteString} {pointer : Nat} {pointers : List Nat}

theorem toNat_field (offset : Nat) :
    (BitVec.ofNat 32 (field data offset 4)).toNat = field data offset 4 := by
  exact (BitVec.toNat_ofNat _ _).trans (Nat.mod_eq_of_lt (field_lt data offset 4))

/-- A field of four bytes in a header. -/
theorem header_yields {offset : Nat} (small : data.length < 2 ^ 64)
    (inside : pointer + 40 ≤ data.length) (fits : offset + 4 ≤ 40) :
    Yields data (deref (ptrAdd pointer offset) 4)
      (some (BitVec.ofNat 32 (field data (pointer + offset) 4)).toNat) := by
  have kept : ptrAdd pointer offset = pointer + offset := ptrAdd_eq (by omega)
  rw [kept, toNat_field]
  exact Yields.deref (by omega)

theorem virtualAddress_yields (small : data.length < 2 ^ 64)
    (inside : pointer + 40 ≤ data.length) :
    Yields data (deref (ptrAdd pointer 12) 4)
      (some (headerAt data pointer).virtualAddress.toNat) :=
  header_yields small inside (by omega)

theorem pointerToRawData_yields (small : data.length < 2 ^ 64)
    (inside : pointer + 40 ≤ data.length) :
    Yields data (deref (ptrAdd pointer 20) 4)
      (some (headerAt data pointer).pointerToRawData.toNat) :=
  header_yields small inside (by omega)

theorem sectionSizeOf_yields (small : data.length < 2 ^ 64)
    (inside : pointer + 40 ≤ data.length) :
    Yields data (sectionSizeOf pointer) (some (headerAt data pointer).sectionSize.toNat) := by
  apply Yields.bind (header_yields small inside (by omega))
  rw [toNat_sectionSize]
  have zero : (headerAt data pointer).virtualSize = 0 ↔
      (BitVec.ofNat 32 (field data (pointer + 8) 4)).toNat = 0 := by
    rw [← BitVec.toNat_inj]
    rfl
  apply Yields.ite
  · intro none
    rw [if_pos (zero.mpr none)]
    exact header_yields small inside (by omega)
  · intro some_
    rw [if_neg (mt zero.mp some_)]
    exact Yields.pure

theorem findSection_yields {rva : Nat} (small : data.length < 2 ^ 64)
    (inside : HeadersInside data pointers) (word : rva < 2 ^ 64) :
    Yields data (findSection rva pointers)
      (some ((sectionLoop ⟨.ofNat 64 rva, false⟩ (pointers.map (headerAt data))).map
        fun translated => translated.value.toNat)) := by
  induction pointers with
  | nil => exact Yields.pure
  | cons pointer rest ih =>
      have header := inside pointer List.mem_cons_self
      have rests : HeadersInside data rest :=
        fun other member => inside other (List.mem_cons_of_mem pointer member)
      have value : (BitVec.ofNat 64 rva).toNat = rva := by
        rw [BitVec.toNat_ofNat, Nat.mod_eq_of_lt word]
      have address := (headerAt data pointer).virtualAddress.isLt
      have size := sectionSize_lt (headerAt data pointer)
      apply Yields.bind (sectionSizeOf_yields small header)
      apply Yields.bind (virtualAddress_yields small header)
      rw [List.map_cons, sectionLoop]
      simp only [start_le_iff, lt_end_iff, value]
      apply Yields.ite
      · intro ⟨above, below⟩
        rw [if_pos above, if_pos below, Option.map_some,
          translate_inside (value.symm ▸ above) (by omega), value]
        apply Yields.bind (pointerToRawData_yields small header)
        exact Yields.pure
      · intro outside
        by_cases above : (headerAt data pointer).virtualAddress.toNat ≤ rva
        · rw [if_pos above, if_neg fun below => outside ⟨above, below⟩]
          exact ih rests
        · rw [if_neg above]
          exact ih rests

end Headers

/-- `pe_rva2ofs` translates with the headers in the buffer. -/
theorem peRva2ofs_returned {context : PeContext} {pointers : List Nat} {rva : Nat}
    (table : context.pe.sections = if pointers = [] then none else some pointers)
    (inside : HeadersInside context.fm.data pointers)
    (small : context.fm.data.length < 2 ^ 64) (word : rva < 2 ^ 64) :
    returned (peRva2ofs rva) context =
      some (rva2ofs (pointers.map (headerAt context.fm.data)) (.ofNat 64 rva)).value.toNat := by
  have value : (BitVec.ofNat 64 rva).toNat = rva := by
    rw [BitVec.toNat_ofNat, Nat.mod_eq_of_lt word]
  have zero : BitVec.ofNat 64 rva = 0 ↔ rva = 0 := by
    rw [← BitVec.toNat_inj, value]
    rfl
  have gets : ∀ program : PeContext → Method Nat,
      returned (get >>= program) context = returned (program context) context := fun _ => rfl
  rw [peRva2ofs, gets, table]
  by_cases none : pointers = []
  · subst none
    rw [if_pos rfl, List.map_nil, rva2ofs, if_pos (.inr rfl)]
    rfl
  · have some_ : pointers.map (headerAt context.fm.data) ≠ [] := by simpa using none
    rw [if_neg none]
    apply Yields.returned_eq _ rfl
    dsimp only
    by_cases isZero : rva = 0
    · rw [if_pos isZero, rva2ofs, if_pos (.inl (zero.mpr isZero))]
      exact Yields.pure
    · rw [if_neg isZero, rva2ofs, if_neg (not_or_intro (mt zero.mp isZero) some_)]
      apply Yields.bind (findSection_yields small inside word)
      cases sectionLoop ⟨.ofNat 64 rva, false⟩ (pointers.map (headerAt context.fm.data)) with
      | some translated => exact Yields.pure
      | none =>
          match pointers with
          | [pointer] =>
              have header := inside pointer List.mem_cons_self
              simp only [List.map_cons, List.map_nil, Option.map_none, singleSection,
                translate_toNat, value]
              apply Yields.bind (virtualAddress_yields small header)
              apply Yields.bind (pointerToRawData_yields small header)
              exact Yields.pure
          | [] => exact absurd rfl none
          | _ :: _ :: _ =>
              simp only [List.map_cons, Option.map_none, singleSection, value]
              exact Yields.pure

/-! ## When addresses are translated -/

/-- The translation is as wanted except for an address in front of the only section. -/
theorem rva2ofs_translates_iff (sections : List ImageSectionHeader) (rva : BitVec 32) :
    Translates sections rva ↔ ¬InFront sections rva := by
  have wraps := @rva2ofs_wrapped_iff sections rva
  constructor
  · intro translates inFront
    have noWrap := translates.noWrap
    rw [wraps.mpr inFront] at noWrap
    contradiction
  · intro behind
    constructor
    case noWrap => exact Bool.eq_false_iff.mpr (mt wraps.mp behind)
    case located => exact fun i header first nonzero => first.offset nonzero
    case monotone => exact fun i header lower first firstLower => first.offset_lt firstLower

/-- The headers of a file in front of its only section. -/
theorem headers_wrap :
    (rva2ofs [⟨0x100, 0x1000, 0x200, 0x400⟩] 1).wrapped = true ∧
      (rva2ofs [⟨0x100, 0x1000, 0x200, 0x400⟩] 1).value = 0xFFFFFFFFFFFFF401 ∧
      ¬Translates [⟨0x100, 0x1000, 0x200, 0x400⟩] 1 := by
  refine ⟨by decide, by decide, fun translates => ?_⟩
  exact absurd translates.noWrap (by decide)

end Cdcm.Backend.Pe
