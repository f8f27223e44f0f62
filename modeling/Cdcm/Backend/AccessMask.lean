import Cdcm.Backend.FlagsVector

/-!
# Access masks

`get_access_mask` of `security_descriptor_utils.cpp`, with the tables of rights.  A right is
a name for some bits of a mask, or a number for bits without a name.  What the rights of a
mask stand for is compared with what the mask grants: its own bits, and those that its generic
bits imply.
-/

namespace Cdcm.Backend

open Flags

/-! ## Tables -/

/-- An access mask. -/
abbrev AccessMask := BitVec 32

/-- `entity_type`. -/
inductive EntityType where
  | ntfsFile
  | ntfsDir
  | share
  | registry
  | generic
  | std
  deriving DecidableEq

/-- The composite rights of files and folders. -/
def fileModify : AccessMask := 0x301BF

def fileRead : AccessMask := 0x20089

def fileWrite : AccessMask := 0x116

def fileReadAndExecute : AccessMask := 0x200A9

def fileFullControl : AccessMask := 0x1F01FF

/-- The composite rights of keys of the registry. -/
def regFullControl : AccessMask := 0xF003F

def regReadAndExecute : AccessMask := 0x20019

/-- `perm_dir`, each table in the order of its map, with the greatest bits first. -/
def permDir : EntityType → List Flag
  | .ntfsFile =>
      [⟨fileFullControl, text "Full Control"⟩, ⟨fileModify, text "Modify"⟩,
        ⟨fileReadAndExecute, text "Read And Execute"⟩, ⟨fileRead, text "Read"⟩,
        ⟨fileWrite, text "Write"⟩, ⟨0x100, text "FILE_WRITE_ATTRIBUTE"⟩,
        ⟨0x80, text "FILE_READ_ATTRIBUTE"⟩, ⟨0x20, text "FILE_EXECUTE"⟩,
        ⟨0x10, text "FILE_WRITE_EA"⟩, ⟨8, text "FILE_READ_EA"⟩, ⟨4, text "FILE_APPEND_DATA"⟩,
        ⟨2, text "FILE_WRITE_DATA"⟩, ⟨1, text "FILE_READ_DATA"⟩]
  | .ntfsDir =>
      [⟨fileFullControl, text "Full Control"⟩, ⟨fileModify, text "Modify"⟩,
        ⟨fileReadAndExecute, text "Read And Execute"⟩, ⟨fileRead, text "Read"⟩,
        ⟨fileWrite, text "Write"⟩, ⟨0x100, text "DIR_WRITE_ATTRIBUTE"⟩,
        ⟨0x80, text "DIR_READ_ATTRIBUTE"⟩, ⟨0x40, text "SEC_DIR_DELETE_CHILD"⟩,
        ⟨0x20, text "DIR_TRAVERSE"⟩, ⟨0x10, text "DIR_WRITE_EA"⟩, ⟨8, text "DIR_READ_EA"⟩,
        ⟨4, text "DIR_ADD_SUBDIR"⟩, ⟨2, text "DIR_ADD_FILE"⟩, ⟨1, text "DIR_LIST"⟩]
  | .registry =>
      [⟨regFullControl, text "Full Control"⟩,
        ⟨regReadAndExecute, text "Read Key, Execute Key"⟩, ⟨0x20, text "Create Link"⟩,
        ⟨0x10, text "Notify"⟩, ⟨8, text "EnumSubKey"⟩, ⟨4, text "CreateSubKey"⟩,
        ⟨2, text "Set Value"⟩, ⟨1, text "Query"⟩]
  | .share =>
      [⟨0x1F01FF, text "SHARE_ALL_ACCESS"⟩, ⟨0x1200A9, text "SHARE_READ_ONLY"⟩,
        ⟨4, text "Change"⟩]
  | .generic =>
      [⟨0x80000000, text "GENERIC_READ_ACCESS"⟩, ⟨0x40000000, text "GENERIC_WRITE_ACCESS"⟩,
        ⟨0x20000000, text "GENERIC_EXECUTE_ACCESS"⟩, ⟨0x10000000, text "GENERIC_ALL_ACCESS"⟩]
  | .std =>
      [⟨0x100000, text "Synchronize"⟩, ⟨0x80000, text "Take Ownership"⟩,
        ⟨0x40000, text "Change Permissions"⟩, ⟨0x20000, text "Read Control"⟩,
        ⟨0x10000, text "Delete"⟩]

/-- `generic_to_file_generic`, in the order of its map. -/
def genericToFileGeneric : List (AccessMask × AccessMask) :=
  [(0x10000000, 0x1F01FF), (0x20000000, 0x1200A0), (0x40000000, 0x120116),
    (0x80000000, 0x120089)]

/-! ## The code -/

/-- A right: an entry of a vector of flags of 32 bits. -/
abbrev Right := Entry .uint32

/-- The names of the standard rights in a mask. -/
def standardRights (mask : AccessMask) : List Right :=
  ((permDir .std).filter fun v => v.bits = mask &&& v.bits).map .named

/-- The bits of files that the generic bits of a mask stand for. -/
def fileGeneric (origMask : AccessMask) : AccessMask :=
  let newMask := genericToFileGeneric.foldl
    (fun newMask v => if v.1 = origMask &&& v.1 then newMask ||| v.2 else newMask) 0
  newMask &&& 0x00FFFFFF

/-- `get_access_mask`, into a vector without elements. -/
def getAccessMask (mask : AccessMask) (et : EntityType) : List Right :=
  let (origMask, outVector) := flagsVector .uint32 (permDir et) mask []
  let outVector :=
    if 0 < origMask then
      outVector ++ standardRights origMask ++ standardRights (fileGeneric origMask)
    else outVector
  if outVector.isEmpty then [.hex origMask] else outVector

/-! ## What a mask grants -/

/-- A bit of the standard rights. -/
def IsStandard (i : Nat) : Prop := (0x1F0000 : AccessMask).getLsbD i = true

/-- A generic bit. -/
def IsGeneric (i : Nat) : Prop := (0xF0000000 : AccessMask).getLsbD i = true

/-- A bit of files that a generic bit of the mask implies. -/
def Implied (mask : AccessMask) (i : Nat) : Prop :=
  ∃ v ∈ genericToFileGeneric, Contains mask v.1 ∧ v.2.getLsbD i = true

/-- A bit that is set in the mask, or implied by a generic bit that is set. -/
def Granted (mask : AccessMask) (i : Nat) : Prop := mask.getLsbD i = true ∨ Implied mask i

/-- A bit that some right stands for. -/
def Reported (rights : List Right) (i : Nat) : Prop :=
  ∃ right ∈ rights, right.bits.getLsbD i = true

/-- The rights stand for what the mask grants only. -/
def Sound (mask : AccessMask) (rights : List Right) : Prop :=
  ∀ i, Reported rights i → Granted mask i

/-- Every bit of the mask is reported, or it is a generic bit all of whose expansion is. -/
def Lossless (mask : AccessMask) (rights : List Right) : Prop :=
  ∀ i, mask.getLsbD i = true → Reported rights i ∨
    ∃ v ∈ genericToFileGeneric, Contains mask v.1 ∧ v.1.getLsbD i = true ∧
      ∀ j, v.2.getLsbD j = true → Reported rights j

/-- A bit of a flag in the table for the entity that the mask contains. -/
def IsNamed (mask : AccessMask) (et : EntityType) (i : Nat) : Prop :=
  ∃ flag ∈ permDir et, Contains mask flag.bits ∧ flag.bits.getLsbD i = true

instance (mask : AccessMask) (et : EntityType) (i : Nat) : Decidable (IsNamed mask et i) :=
  inferInstanceAs (Decidable (∃ flag ∈ permDir et, _))

instance (i : Nat) : Decidable (IsStandard i) := inferInstanceAs (Decidable (_ = _))

instance (i : Nat) : Decidable (IsGeneric i) := inferInstanceAs (Decidable (_ = _))

/-- The bits of the mask are all of flags in the table, of standard rights or generic, or
none of them is; and the bits of files that its generic bits imply are of flags in the table
or of standard rights. -/
def Expressible (mask : AccessMask) (et : EntityType) : Prop :=
  ((∀ i, mask.getLsbD i = true → IsNamed mask et i ∨ IsStandard i ∨ IsGeneric i) ∨
      ∀ i, mask.getLsbD i = true → ¬IsNamed mask et i ∧ ¬IsStandard i ∧ ¬IsGeneric i) ∧
    ∀ i, Implied mask i → IsNamed mask et i ∨ IsStandard i

/-- The types of entities with access masks. -/
def securedEntities : List EntityType := [.ntfsFile, .ntfsDir, .share, .registry]

/-! ## The tables -/

/-- The larger flags of a table contain the smaller ones, or have no bits with them. -/
theorem permDir_laminar (et : EntityType) : Laminar Flag.bits (permDir et) := by
  cases et <;> decide

theorem permDir_nonzero (et : EntityType) : ∀ flag ∈ permDir et, flag.bits ≠ 0 := by
  cases et <;> decide

/-- The flags of entities are not generic. -/
theorem permDir_not_generic {et : EntityType} (secured : et ∈ securedEntities) :
    ∀ flag ∈ permDir et, Apart flag.bits 0xF0000000 := by
  revert et
  decide

theorem standard_single : ∀ flag ∈ permDir .std, Single flag.bits := by decide

/-- The bits of the standard rights. -/
theorem standard_exists {i : Nat} :
    IsStandard i ↔ ∃ flag ∈ permDir .std, flag.bits.getLsbD i = true := by
  have all : (0x1F0000 : AccessMask) = union ((permDir .std).map Flag.bits) := by decide
  rw [IsStandard, all, getLsbD_union]
  simp only [List.mem_map, exists_exists_and_eq_and]

theorem generic_single : ∀ v ∈ genericToFileGeneric, Single v.1 := by
  simp only [genericToFileGeneric, List.forall_mem_cons, List.not_mem_nil, false_implies,
    implies_true, and_true]
  exact ⟨⟨28, by simp, rfl⟩, ⟨29, by simp, rfl⟩, ⟨30, by simp, rfl⟩, ⟨31, by simp, rfl⟩⟩

/-- The generic bits. -/
theorem generic_exists {i : Nat} :
    IsGeneric i ↔ ∃ v ∈ genericToFileGeneric, v.1.getLsbD i = true := by
  have all : (0xF0000000 : AccessMask) = union (genericToFileGeneric.map Prod.fst) := by decide
  rw [IsGeneric, all, getLsbD_union]
  simp only [List.mem_map, exists_exists_and_eq_and]

theorem generic_nonzero : ∀ v ∈ genericToFileGeneric, v.1 ≠ 0 := by
  simp [genericToFileGeneric]

/-- No generic bit stands for two expansions. -/
theorem generic_distinct : ∀ v ∈ genericToFileGeneric, ∀ other ∈ genericToFileGeneric, ∀ i,
    v.1.getLsbD i = true → other.1.getLsbD i = true → v = other := by
  intro v member other otherMember i set setOther
  have pairs : ∀ v ∈ genericToFileGeneric, ∀ other ∈ genericToFileGeneric,
      v = other ∨ Apart v.1 other.1 := by
    simp [genericToFileGeneric, Apart]
  refine (pairs v member other otherMember).resolve_right fun apart => ?_
  rw [apart.not_both set] at setOther
  contradiction

/-- Every generic bit implies a standard right. -/
theorem generic_standard : ∀ v ∈ genericToFileGeneric, v.2 &&& 0x1F0000 ≠ 0 := by
  simp [genericToFileGeneric]

/-- Generic bits stand for bits of files. -/
theorem generic_file : ∀ v ∈ genericToFileGeneric, v.2 &&& 0x00FFFFFF = v.2 := by
  simp [genericToFileGeneric]

/-! ## What is reported -/

/-- The flags of a table that are put into the vector. -/
def takenRights (mask : AccessMask) (et : EntityType) : List Right :=
  (extract Flag.bits (permDir et) mask).2.map .named

/-- The bits of a mask that are of no flag in the table. -/
def restOf (mask : AccessMask) (et : EntityType) : AccessMask :=
  (extract Flag.bits (permDir et) mask).1

theorem getLsbD_restOf {mask : AccessMask} {et : EntityType} {i : Nat} :
    (restOf mask et).getLsbD i = true ↔ mask.getLsbD i = true ∧ ¬IsNamed mask et i :=
  (permDir_laminar et).getLsbD_extract mask i

/-- The rights by name are in the vector for the rest of the code, also when nothing is left
of the mask. -/
def namedRights (mask : AccessMask) (et : EntityType) : List Right :=
  takenRights mask et ++ standardRights (restOf mask et) ++
    standardRights (fileGeneric (restOf mask et))

theorem standardRights_zero : standardRights 0 = [] := rfl

theorem fileGeneric_zero : fileGeneric 0 = 0 := rfl

/-- `get_access_mask` in terms of the rights by name. -/
theorem getAccessMask_eq (mask : AccessMask) (et : EntityType) :
    getAccessMask mask et =
      if (namedRights mask et).isEmpty then [.hex (restOf mask et)] else namedRights mask et := by
  have filled : (if 0 < restOf mask et then
      takenRights mask et ++ standardRights (restOf mask et) ++
        standardRights (fileGeneric (restOf mask et))
      else takenRights mask et) = namedRights mask et := by
    by_cases left : 0 < restOf mask et
    · rw [if_pos left, namedRights]
    · have zero : restOf mask et = 0 := by
        apply BitVec.eq_of_toNat_eq
        rw [BitVec.lt_def] at left
        simpa using left
      rw [if_neg left, namedRights, zero, fileGeneric_zero, standardRights_zero, List.append_nil,
        List.append_nil]
  rw [getAccessMask, flagsVector_mask, ← filled]
  rfl

theorem reported_taken {mask : AccessMask} {et : EntityType} {i : Nat} :
    Reported (takenRights mask et) i ↔ IsNamed mask et i := by
  constructor
  · intro ⟨right, member, set⟩
    obtain ⟨flag, taken, rfl⟩ := List.mem_map.mp member
    have found := of_mem_extract taken
    exact ⟨flag, found.1, found.2, set⟩
  · intro ⟨flag, member, contains, set⟩
    obtain ⟨other, taken, setOther⟩ := (permDir_laminar et).taken member contains set
    exact ⟨.named other, List.mem_map_of_mem taken, setOther⟩

theorem reported_standard {mask : AccessMask} {i : Nat} :
    Reported (standardRights mask) i ↔ mask.getLsbD i = true ∧ IsStandard i := by
  rw [standard_exists]
  constructor
  · intro ⟨right, member, set⟩
    obtain ⟨flag, among, rfl⟩ := List.mem_map.mp member
    obtain ⟨inTable, contained⟩ := List.mem_filter.mp among
    have contains : Contains mask flag.bits := (of_decide_eq_true contained).symm
    exact ⟨contains_iff.mp contains i set, flag, inTable, set⟩
  · intro ⟨set, flag, inTable, setFlag⟩
    have contains := (standard_single flag inTable).contains setFlag set
    refine ⟨.named flag, List.mem_map_of_mem (List.mem_filter.mpr ⟨inTable, ?_⟩), setFlag⟩
    exact decide_eq_true contains.symm

theorem reported_append {left right : List Right} {i : Nat} :
    Reported (left ++ right) i ↔ Reported left i ∨ Reported right i := by
  simp only [Reported, List.mem_append, or_and_right, exists_or]

/-- The generic bits are left in the rest. -/
theorem contains_restOf {mask : AccessMask} {et : EntityType} (secured : et ∈ securedEntities)
    {v : AccessMask × AccessMask} (member : v ∈ genericToFileGeneric) :
    Contains (restOf mask et) v.1 ↔ Contains mask v.1 := by
  simp only [contains_iff, getLsbD_restOf]
  refine forall₂_congr fun i set => and_iff_left ?_
  intro ⟨flag, inTable, _, setFlag⟩
  have free := (permDir_not_generic secured flag inTable).not_both setFlag
  have generic : IsGeneric i := generic_exists.mpr ⟨v, member, set⟩
  rw [IsGeneric, free] at generic
  contradiction

/-- The bits that the loop over the generic bits has put together. -/
theorem getLsbD_foldl_generic (table : List (AccessMask × AccessMask)) (mask newMask : AccessMask)
    (i : Nat) :
    (table.foldl (fun newMask v => if v.1 = mask &&& v.1 then newMask ||| v.2 else newMask)
      newMask).getLsbD i = true ↔
        newMask.getLsbD i = true ∨ ∃ v ∈ table, Contains mask v.1 ∧ v.2.getLsbD i = true := by
  induction table generalizing newMask with
  | nil => simp
  | cons first table ih =>
      rw [List.foldl_cons, ih]
      simp only [List.mem_cons, exists_eq_or_imp, ← or_assoc]
      refine or_congr_left ?_
      by_cases contains : Contains mask first.1
      · rw [if_pos contains.symm, BitVec.getLsbD_or, Bool.or_eq_true]
        simp [contains]
      · rw [if_neg fun same => contains same.symm]
        simp [contains]

theorem getLsbD_fileGeneric {mask : AccessMask} {i : Nat} :
    (fileGeneric mask).getLsbD i = true ↔ Implied mask i := by
  rw [fileGeneric, BitVec.getLsbD_and, Bool.and_eq_true, getLsbD_foldl_generic, Implied]
  have zero : (0 : AccessMask).getLsbD i = false := BitVec.getLsbD_zero
  rw [zero, or_iff_right Bool.false_ne_true]
  refine and_iff_left_of_imp fun ⟨v, member, _, set⟩ => ?_
  have inFile := generic_file v member
  rw [← inFile, BitVec.getLsbD_and, Bool.and_eq_true] at set
  exact set.2

theorem implied_restOf {mask : AccessMask} {et : EntityType} (secured : et ∈ securedEntities)
    {i : Nat} : Implied (restOf mask et) i ↔ Implied mask i := by
  refine exists_congr fun v => and_congr_right fun member => ?_
  rw [contains_restOf secured member]

/-- A bit of a flag in the table, or of a standard right that the mask grants. -/
def HasName (mask : AccessMask) (et : EntityType) (i : Nat) : Prop :=
  IsNamed mask et i ∨ IsStandard i ∧ Granted mask i

/-- The bits that are reported by name. -/
theorem reported_named {mask : AccessMask} {et : EntityType} (secured : et ∈ securedEntities)
    {i : Nat} :
    Reported (namedRights mask et) i ↔ HasName mask et i := by
  rw [HasName, namedRights, reported_append, reported_append, reported_taken, reported_standard,
    reported_standard, getLsbD_restOf, getLsbD_fileGeneric, implied_restOf secured, Granted]
  by_cases named : IsNamed mask et i
  · simp [named]
  · simp [named, or_and_right, and_comm]

theorem exists_of_mem_standardRights {mask : AccessMask} {right : Right}
    (member : right ∈ standardRights mask) : ∃ flag ∈ permDir .std, right = .named flag := by
  obtain ⟨flag, among, rfl⟩ := List.mem_map.mp member
  exact ⟨flag, (List.mem_filter.mp among).1, rfl⟩

/-- Rights by name stand for some bits. -/
theorem bits_ne_zero_of_mem {mask : AccessMask} {et : EntityType} {right : Right}
    (member : right ∈ namedRights mask et) : right.bits ≠ 0 := by
  simp only [namedRights, List.mem_append] at member
  obtain (taken | standard) | expanded := member
  · obtain ⟨flag, among, rfl⟩ := List.mem_map.mp taken
    exact permDir_nonzero et flag (of_mem_extract among).1
  · obtain ⟨flag, inTable, rfl⟩ := exists_of_mem_standardRights standard
    exact permDir_nonzero .std flag inTable
  · obtain ⟨flag, inTable, rfl⟩ := exists_of_mem_standardRights expanded
    exact permDir_nonzero .std flag inTable

/-- There are no rights by name exactly when no bit is reported by name. -/
theorem namedRights_isEmpty {mask : AccessMask} {et : EntityType}
    (secured : et ∈ securedEntities) :
    (namedRights mask et).isEmpty = true ↔ ∀ i, ¬HasName mask et i := by
  simp only [← reported_named secured]
  constructor
  · intro empty i ⟨right, member, _⟩
    rw [List.isEmpty_iff.mp empty] at member
    exact List.not_mem_nil member
  · intro none
    by_contra some_
    have nonempty : namedRights mask et ≠ [] := fun empty => some_ (List.isEmpty_iff.mpr empty)
    obtain ⟨right, member⟩ := List.exists_mem_of_ne_nil _ nonempty
    obtain ⟨i, set⟩ := exists_bit (bits_ne_zero_of_mem member)
    exact none i ⟨right, member, set⟩

/-- The bits that are reported by name, or in hexadecimal when there are none. -/
theorem reported_getAccessMask {mask : AccessMask} {et : EntityType}
    (secured : et ∈ securedEntities) {i : Nat} :
    Reported (getAccessMask mask et) i ↔
      HasName mask et i ∨ mask.getLsbD i = true ∧ ∀ j, ¬HasName mask et j := by
  rw [getAccessMask_eq]
  by_cases empty : (namedRights mask et).isEmpty = true
  · have none := (namedRights_isEmpty secured).mp empty
    have unnamed : ¬IsNamed mask et i := fun named => none i (.inl named)
    have hex : Reported [.hex (restOf mask et)] i ↔ (restOf mask et).getLsbD i = true := by
      simp [Reported, Entry.bits]
    rw [if_pos empty, hex, getLsbD_restOf, or_iff_right (none i), and_iff_left unnamed,
      and_iff_left none]
  · have some_ := mt (namedRights_isEmpty secured).mpr empty
    rw [if_neg empty, reported_named secured, or_iff_left fun both => some_ both.2]

/-! ## When nothing is missing -/

/-- A generic bit of the mask implies a standard right. -/
theorem standard_of_generic {mask : AccessMask} {i : Nat} (set : mask.getLsbD i = true)
    (generic : IsGeneric i) :
    ∃ v ∈ genericToFileGeneric, Contains mask v.1 ∧ v.1.getLsbD i = true ∧
      ∃ j, IsStandard j ∧ v.2.getLsbD j = true := by
  obtain ⟨v, member, setGeneric⟩ := generic_exists.mp generic
  have contains := (generic_single v member).contains setGeneric set
  obtain ⟨j, both⟩ := exists_bit (generic_standard v member)
  rw [BitVec.getLsbD_and, Bool.and_eq_true] at both
  exact ⟨v, member, contains, setGeneric, j, both.2, both.1⟩

/-- Only what the mask grants is reported. -/
theorem getAccessMask_sound {et : EntityType} (secured : et ∈ securedEntities)
    (mask : AccessMask) : Sound mask (getAccessMask mask et) := by
  intro i reported
  obtain (named | standard) | ⟨set, _⟩ := (reported_getAccessMask secured).mp reported
  · obtain ⟨flag, _, contains, setFlag⟩ := named
    exact .inl (contains_iff.mp contains i setFlag)
  · exact standard.2
  · exact .inl set

/-- The generic bits are of no flag of an entity. -/
theorem not_named_of_generic {mask : AccessMask} {et : EntityType}
    (secured : et ∈ securedEntities) {i : Nat} (generic : IsGeneric i) :
    ¬IsNamed mask et i := by
  intro ⟨flag, inTable, _, set⟩
  rw [IsGeneric, (permDir_not_generic secured flag inTable).not_both set] at generic
  contradiction

theorem not_standard_of_generic {i : Nat} (generic : IsGeneric i) : ¬IsStandard i := by
  intro standard
  have apart : Apart (0x1F0000 : AccessMask) 0xF0000000 := by decide
  rw [IsGeneric, apart.not_both standard] at generic
  contradiction

/-- Where some bit has a name, the bits that have none are not reported. -/
theorem reported_iff_hasName {mask : AccessMask} {et : EntityType}
    (secured : et ∈ securedEntities) (some_ : ∃ j, HasName mask et j) {i : Nat} :
    Reported (getAccessMask mask et) i ↔ HasName mask et i := by
  rw [reported_getAccessMask secured]
  obtain ⟨j, named⟩ := some_
  exact or_iff_left fun both => both.2 j named

/-- Where no bit has a name, there are no generic bits. -/
theorem not_generic_of_nameless {mask : AccessMask} {et : EntityType}
    (nameless : ∀ j, ¬HasName mask et j) {i : Nat} (set : mask.getLsbD i = true) :
    ¬IsGeneric i := by
  intro generic
  obtain ⟨v, member, contains, _, j, standard, implied⟩ := standard_of_generic set generic
  exact nameless j (.inr ⟨standard, .inr ⟨v, member, contains, implied⟩⟩)

/-- Nothing is missing when the mask is expressible. -/
theorem lossless_of_expressible {et : EntityType} (secured : et ∈ securedEntities)
    {mask : AccessMask} (expressible : Expressible mask et) :
    Lossless mask (getAccessMask mask et) := by
  intro i set
  by_cases some_ : ∃ j, HasName mask et j
  · simp only [reported_iff_hasName secured some_]
    have expands : ∀ j, Implied mask j → HasName mask et j := by
      intro j implied
      exact (expressible.2 j implied).imp id fun standard => ⟨standard, .inr implied⟩
    cases expressible.1 with
    | inl all =>
        obtain named | standard | generic := all i set
        · exact .inl (.inl named)
        · exact .inl (.inr ⟨standard, .inl set⟩)
        · obtain ⟨v, member, contains, setGeneric, _⟩ := standard_of_generic set generic
          exact .inr ⟨v, member, contains, setGeneric,
            fun j setJ => expands j ⟨v, member, contains, setJ⟩⟩
    | inr none =>
        obtain ⟨j, named | ⟨standard, inMask | implied⟩⟩ := some_
        · obtain ⟨flag, inTable, contains, setFlag⟩ := named
          exact absurd ⟨flag, inTable, contains, setFlag⟩
            (none j (contains_iff.mp contains j setFlag)).1
        · exact absurd standard (none j inMask).2.1
        · obtain ⟨v, member, contains, _⟩ := implied
          obtain ⟨k, setGeneric⟩ := exists_bit (generic_nonzero v member)
          have inMask := contains_iff.mp contains k setGeneric
          exact absurd (generic_exists.mpr ⟨v, member, setGeneric⟩) (none k inMask).2.2
  · push Not at some_
    exact .inl ((reported_getAccessMask secured).mpr (.inr ⟨set, some_⟩))

/-- Only expressible masks are reported without loss. -/
theorem expressible_of_lossless {et : EntityType} (secured : et ∈ securedEntities)
    {mask : AccessMask} (lossless : Lossless mask (getAccessMask mask et)) :
    Expressible mask et := by
  by_cases some_ : ∃ j, HasName mask et j
  · rw [Lossless] at lossless
    simp only [reported_iff_hasName secured some_] at lossless
    refine ⟨.inl fun i set => ?_, fun j implied => ?_⟩
    · cases lossless i set with
      | inl named => exact named.imp id fun standard => .inl standard.1
      | inr generic =>
          obtain ⟨v, member, _, setGeneric, _⟩ := generic
          exact .inr (.inr (generic_exists.mpr ⟨v, member, setGeneric⟩))
    · obtain ⟨v, member, contains, setJ⟩ := implied
      obtain ⟨k, setGeneric⟩ := exists_bit (generic_nonzero v member)
      have generic : IsGeneric k := generic_exists.mpr ⟨v, member, setGeneric⟩
      have reported := lossless k (contains_iff.mp contains k setGeneric)
      have unnamed : ¬HasName mask et k := by
        intro named
        exact named.elim (not_named_of_generic secured generic)
          fun standard => not_standard_of_generic generic standard.1
      obtain ⟨other, otherMember, _, setOther, expands⟩ := reported.resolve_left unnamed
      have same := generic_distinct v member other otherMember k setGeneric setOther
      exact (expands j (same ▸ setJ)).imp id And.left
  · push Not at some_
    refine ⟨.inr fun i set => ⟨fun named => some_ i (.inl named),
      fun standard => some_ i (.inr ⟨standard, .inl set⟩), not_generic_of_nameless some_ set⟩, ?_⟩
    intro j ⟨v, member, contains, _⟩
    obtain ⟨k, setGeneric⟩ := exists_bit (generic_nonzero v member)
    have inMask := contains_iff.mp contains k setGeneric
    have generic : IsGeneric k := generic_exists.mpr ⟨v, member, setGeneric⟩
    exact absurd generic (not_generic_of_nameless some_ inMask)

/-- The rights of a mask are those that it grants, and nothing is missing exactly when the mask
is expressible. -/
theorem getAccessMask_exact_iff (mask : AccessMask) (et : EntityType)
    (secured : et ∈ securedEntities) :
    Sound mask (getAccessMask mask et) ∧ Lossless mask (getAccessMask mask et) ↔
      Expressible mask et :=
  ⟨fun both => expressible_of_lossless secured both.2, fun expressible =>
    ⟨getAccessMask_sound secured mask, lossless_of_expressible secured expressible⟩⟩

/-- The mask of a file that may be read, with the generic bit for it. -/
theorem readMask_exact :
    EntityType.ntfsFile ∈ securedEntities ∧ Expressible 0x80120089 .ntfsFile ∧
      Sound 0x80120089 (getAccessMask 0x80120089 .ntfsFile) ∧
        Lossless 0x80120089 (getAccessMask 0x80120089 .ntfsFile) := by
  have own : ∀ i < 32, (0x80120089 : AccessMask).getLsbD i = true →
      IsNamed 0x80120089 .ntfsFile i ∨ IsStandard i ∨ IsGeneric i := by decide
  have expansion : ∀ v ∈ genericToFileGeneric, Contains 0x80120089 v.1 → v.2 = 0x120089 := by
    simp [genericToFileGeneric, Contains]
  have expanded : ∀ i < 32, (0x120089 : AccessMask).getLsbD i = true →
      IsNamed 0x80120089 .ntfsFile i ∨ IsStandard i := by decide
  have expressible : Expressible 0x80120089 .ntfsFile := by
    refine ⟨.inl fun i set => own i (BitVec.lt_of_getLsbD set) set, ?_⟩
    intro i ⟨v, member, contains, set⟩
    rw [expansion v member contains] at set
    exact expanded i (BitVec.lt_of_getLsbD set) set
  exact ⟨by decide, expressible, (getAccessMask_exact_iff _ _ (by decide)).mpr expressible⟩

/-- The right to delete children is not reported for a file that may also be read. -/
theorem deleteChild_missing :
    (getAccessMask 0x41 .ntfsFile).map Entry.text = [text "FILE_READ_DATA"] ∧
      ¬Lossless 0x41 (getAccessMask 0x41 .ntfsFile) := by
  refine ⟨by decide, fun lossless => ?_⟩
  have expressible := (expressible_of_lossless (by decide) lossless).1
  cases expressible with
  | inl all => exact absurd (all 6 (by decide)) (by decide)
  | inr none => exact (none 0 (by decide)).1 (by decide)

end Cdcm.Backend
