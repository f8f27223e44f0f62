import Cdcm.Lib.Bytes
import Cdcm.Lib.Flags

/-!
# Vectors of flags

`flags_vector` of `security_descriptor_utils.cpp` at each of its types of flags, with a table
whose masks are always words of 32 bits.  The turns of its loop take flags that are apart; a
remainder is left where a bit of the flags is of no flag that is taken, and it is not put into
the vector.
-/

namespace Cdcm.Backend

open Flags

/-! ## The code -/

/-- An entry of a table of flags. -/
structure Flag where
  bits : BitVec 32
  name : ByteString
  deriving DecidableEq

/-- The types that `flags_vector` is instantiated with. -/
inductive NType where
  | uint8
  | uint16
  | uint32
  deriving DecidableEq

/-- The number of bits of a type. -/
abbrev NType.width : NType → Nat
  | uint8 => 8
  | uint16 => 16
  | uint32 => 32

/-- The flags are promoted to 32 bits where they meet a mask. -/
def promote (n : NType) (flags : BitVec n.width) : BitVec 32 := flags.setWidth 32

/-- `NType_to_hex_string`: a number of eight bits is a character for the stream. -/
def hexString (n : NType) (v : BitVec n.width) : ByteString :=
  match n with
  | .uint8 => text "0x" ++ [Fin.ofNat 256 v.toNat]
  | .uint16 | .uint32 => text "0x" ++ text (String.ofList (Nat.toDigits 16 v.toNat))

/-- What is put into the vector: the name of a flag, or a remainder in hexadecimal. -/
inductive Entry (n : NType) where
  | named (flag : Flag)
  | hex (remain : BitVec n.width)

def Entry.text {n : NType} : Entry n → ByteString
  | named flag => flag.name
  | hex remain => hexString n remain

/-- The bits that an entry stands for. -/
def Entry.bits {n : NType} : Entry n → BitVec 32
  | named flag => flag.bits
  | hex remain => promote n remain

/-- The mask of an entry with a name. -/
def Entry.mask? {n : NType} : Entry n → Option (BitVec 32)
  | named flag => some flag.bits
  | hex _ => none

/-- The turn of the loop. -/
def entryTurn (n : NType) : BitVec n.width × List (Entry n) → Flag →
    BitVec n.width × List (Entry n)
  | (flags, outVector), e =>
      if e.bits ≤ promote n flags ∧ promote n flags &&& e.bits = e.bits then
        ((promote n flags &&& ~~~e.bits).setWidth n.width, outVector ++ [.named e])
      else (flags, outVector)

/-- `flags_vector`, for a table in the order of its iteration. Nothing is assigned to
`remain`. -/
def flagsVector (n : NType) (cont : List Flag) (flags : BitVec n.width)
    (outVector : List (Entry n)) : BitVec n.width × List (Entry n) :=
  let remain : BitVec n.width := 0
  let (flags, outVector) := cont.foldl (entryTurn n) (flags, outVector)
  if 0 < remain then (flags, outVector ++ [.hex remain]) else (flags, outVector)

/-- `ace_flags`, in some order. -/
def aceFlags : List Flag :=
  [⟨1, text "OI"⟩, ⟨2, text "CI"⟩, ⟨4, text "NP"⟩, ⟨8, text "IO"⟩, ⟨0x10, text "I"⟩]

/-- `sec_desc_ctrl_bits`, in some order. -/
def secDescCtrlBits : List Flag :=
  [⟨1, text "OD"⟩, ⟨2, text "GD"⟩, ⟨4, text "DP"⟩, ⟨8, text "DD"⟩, ⟨0x10, text "SP"⟩,
    ⟨0x20, text "SD"⟩, ⟨0x40, text "DT"⟩, ⟨0x80, text "SS"⟩, ⟨0x100, text "DR"⟩,
    ⟨0x200, text "SR"⟩, ⟨0x400, text "DI"⟩, ⟨0x800, text "SI"⟩, ⟨0x1000, text "PD"⟩,
    ⟨0x2000, text "PS"⟩, ⟨0x4000, text "RM"⟩, ⟨0x8000, text "SR"⟩]

/-- `get_ace_flags`, where the map is iterated in the order given. -/
def getAceFlags (order : List Flag) (flags : BitVec 8) (outVec : List (Entry .uint8)) :
    List (Entry .uint8) :=
  (flagsVector .uint8 order flags outVec).2

/-- `get_acl_ctrl`, where the map is iterated in the order given. -/
def getAclCtrl (order : List Flag) (ctrl : BitVec 16) (outVec : List (Entry .uint16)) :
    List (Entry .uint16) :=
  (flagsVector .uint16 order ctrl outVec).2

/-! ## Partitions -/

/-- The entries that are put behind those of a vector. -/
def emitted (n : NType) (cont : List Flag) (flags : BitVec n.width)
    (outVector : List (Entry n)) : List (Entry n) :=
  (flagsVector n cont flags outVector).2.drop outVector.length

/-- The masks of the entries that are put into a vector. -/
def emittedMasks (n : NType) (cont : List Flag) (flags : BitVec n.width)
    (outVector : List (Entry n)) : List (BitVec 32) :=
  (emitted n cont flags outVector).filterMap Entry.mask?

/-- A table of single bits, each of them once. -/
def SingleBits (cont : List Flag) : Prop :=
  (∀ e ∈ cont, Single e.bits) ∧ cont.Pairwise fun left right => left.bits ≠ right.bits

instance (cont : List Flag) : Decidable (SingleBits cont) :=
  inferInstanceAs (Decidable (_ ∧ _))

/-- The flags are parted into the masks that are emitted and a remainder that is reported; of
single bits, the names do not depend on the order. -/
structure Partitions (n : NType) (cont : List Flag) (flags : BitVec n.width)
    (outVector : List (Entry n)) : Prop where
  kept : outVector <+: (flagsVector n cont flags outVector).2
  disjoint : (emittedMasks n cont flags outVector).Pairwise Apart
  contained : ∀ mask ∈ emittedMasks n cont flags outVector, Contains (promote n flags) mask
  rest : promote n (flagsVector n cont flags outVector).1 =
    promote n flags &&& ~~~union (emittedMasks n cont flags outVector)
  reported : (flagsVector n cont flags outVector).1 ≠ 0 →
    .hex (flagsVector n cont flags outVector).1 ∈ emitted n cont flags outVector
  orderFree : SingleBits cont → ∀ order, order.Perm cont → ∀ name,
    name ∈ (emitted n order flags outVector).map Entry.text ↔
      name ∈ (emitted n cont flags outVector).map Entry.text

/-- Every bit of the flags is of a flag that the flags contain, and of which no bit is of an
earlier such flag. -/
def NoRemainder (n : NType) (cont : List Flag) (flags : BitVec n.width) : Prop :=
  ∀ i, (promote n flags).getLsbD i = true →
    Taken Flag.bits (promote n flags) cont.reverse i

/-! ## The turns -/

theorem NType.width_le (n : NType) : n.width ≤ 32 := by
  cases n <;> decide

/-- Flags without some of their bits fit into their type. -/
theorem promote_narrowed (n : NType) (flags : BitVec n.width) (mask : BitVec 32) :
    promote n ((promote n flags &&& mask).setWidth n.width) = promote n flags &&& mask := by
  refine BitVec.eq_of_getLsbD_eq fun i small => ?_
  simp only [promote, BitVec.getLsbD_setWidth, BitVec.getLsbD_and, decide_eq_true small,
    Bool.true_and]
  cases set : flags.getLsbD i with
  | false => simp
  | true => simp [BitVec.lt_of_getLsbD set]

/-- Flags of 32 bits are not promoted. -/
@[simp] theorem promote_mask (mask : BitVec 32) : promote .uint32 mask = mask :=
  BitVec.setWidth_eq mask

theorem promote_injective {n : NType} {left right : BitVec n.width}
    (same : promote n left = promote n right) : left = right := by
  have fits := n.width_le
  rw [promote, promote, ← BitVec.toNat_inj, BitVec.toNat_setWidth_of_le fits,
    BitVec.toNat_setWidth_of_le fits] at same
  exact BitVec.eq_of_toNat_eq same

theorem le_of_contains {mask flag : BitVec 32} (contains : Contains mask flag) :
    flag ≤ mask := by
  rw [← contains, BitVec.le_def, BitVec.toNat_and]
  exact Nat.and_le_left

/-- The loop extracts the flags of the table from the promoted flags. -/
theorem foldl_entryTurn (n : NType) (cont : List Flag) (flags : BitVec n.width)
    (outVector : List (Entry n)) :
    promote n (cont.foldl (entryTurn n) (flags, outVector)).1 =
        (extract Flag.bits cont (promote n flags)).1 ∧
      (cont.foldl (entryTurn n) (flags, outVector)).2 =
        outVector ++ (extract Flag.bits cont (promote n flags)).2.map .named := by
  induction cont generalizing flags outVector with
  | nil => simp [extract]
  | cons e cont ih =>
      rw [List.foldl_cons, entryTurn, extract]
      by_cases contains : Contains (promote n flags) e.bits
      · rw [if_pos ⟨le_of_contains contains, contains⟩, if_pos contains]
        have later := ih ((promote n flags &&& ~~~e.bits).setWidth n.width)
          (outVector ++ [.named e])
        rw [promote_narrowed] at later
        exact ⟨later.1, by rw [later.2]; simp⟩
      · rw [if_neg fun both => contains both.2, if_neg contains]
        exact ih flags outVector

variable (n : NType) (cont : List Flag) (flags : BitVec n.width)
variable (outVector : List (Entry n))

theorem flagsVector_eq :
    flagsVector n cont flags outVector = cont.foldl (entryTurn n) (flags, outVector) := by
  simp [flagsVector]

/-- What is left of the flags. -/
theorem flagsVector_rest : promote n (flagsVector n cont flags outVector).1 =
    (extract Flag.bits cont (promote n flags)).1 := by
  rw [flagsVector_eq]
  exact (foldl_entryTurn n cont flags outVector).1

/-- Only names are put into the vector. -/
theorem flagsVector_vector : (flagsVector n cont flags outVector).2 =
    outVector ++ (extract Flag.bits cont (promote n flags)).2.map .named := by
  rw [flagsVector_eq]
  exact (foldl_entryTurn n cont flags outVector).2

theorem emitted_eq : emitted n cont flags outVector =
    (extract Flag.bits cont (promote n flags)).2.map .named := by
  rw [emitted, flagsVector_vector, List.drop_left]

theorem emittedMasks_eq : emittedMasks n cont flags outVector =
    (extract Flag.bits cont (promote n flags)).2.map Flag.bits := by
  rw [emittedMasks, emitted_eq, List.filterMap_map]
  exact congrFun List.filterMap_eq_map' _

/-- For flags of 32 bits, as the rights of an access mask are. -/
theorem flagsVector_mask (mask : BitVec 32) (rights : List (Entry .uint32)) :
    flagsVector .uint32 cont mask rights =
      ((extract Flag.bits cont mask).1,
        rights ++ (extract Flag.bits cont mask).2.map .named) := by
  have rest := flagsVector_rest .uint32 cont mask rights
  have vector := flagsVector_vector .uint32 cont mask rights
  rw [promote_mask, promote_mask] at rest
  rw [promote_mask] at vector
  exact Prod.ext rest vector

/-! ## What is emitted -/

/-- A remainder is not reported. -/
theorem hex_not_emitted (remain : BitVec n.width) :
    .hex remain ∉ emitted n cont flags outVector := by
  rw [emitted_eq]
  simp

/-- Nothing remains exactly when the extraction leaves nothing. -/
theorem noRemainder_iff :
    NoRemainder n cont flags ↔ (extract Flag.bits cont (promote n flags)).1 = 0 := by
  constructor
  · intro all
    by_contra nonzero
    obtain ⟨i, inRest⟩ := exists_bit nonzero
    have free := (getLsbD_extract_taken cont (promote n flags) i).mp inRest
    exact free.2 (all i free.1)
  · intro none i set
    by_contra notTaken
    have inRest := (getLsbD_extract_taken cont (promote n flags) i).mpr ⟨set, notTaken⟩
    simp [none] at inRest

/-- The flags that come out are zero exactly when nothing remains. -/
theorem rest_eq_zero_iff :
    (flagsVector n cont flags outVector).1 = 0 ↔ NoRemainder n cont flags := by
  have promoted : promote n 0 = 0 := by simp [promote]
  rw [noRemainder_iff, ← flagsVector_rest n cont flags outVector]
  exact ⟨fun none => none ▸ promoted, fun none => promote_injective (none.trans promoted.symm)⟩

/-! ## Single bits -/

theorem SingleBits.apart {cont : List Flag} (single : SingleBits cont) :
    cont.Pairwise fun left right => Apart left.bits right.bits := by
  refine List.Pairwise.imp_of_mem ?_ single.2
  intro left right memberLeft memberRight distinct
  exact (single.1 left memberLeft).apart (single.1 right memberRight) distinct

/-- Of single bits, the flags are emitted that are set, in every order. -/
theorem SingleBits.mem_emitted {cont : List Flag} (single : SingleBits cont)
    (name : ByteString) :
    name ∈ (emitted n cont flags outVector).map Entry.text ↔
      ∃ flag ∈ cont, Contains (promote n flags) flag.bits ∧ flag.name = name := by
  rw [emitted_eq, List.map_map, List.mem_map]
  simp only [mem_extract_of_apart single.apart, and_assoc]
  rfl

theorem SingleBits.perm {cont order : List Flag} (single : SingleBits cont)
    (perm : order.Perm cont) : SingleBits order := by
  refine ⟨fun e member => single.1 e (perm.mem_iff.mp member), ?_⟩
  exact (perm.pairwise_iff fun distinct => distinct.symm).mpr single.2

/-- Of single bits, nothing remains when every bit of the flags is in the table. -/
theorem SingleBits.noRemainder_iff {cont : List Flag} (single : SingleBits cont) :
    NoRemainder n cont flags ↔
      ∀ i, (promote n flags).getLsbD i = true → ∃ flag ∈ cont, flag.bits.getLsbD i = true := by
  have laminar : Laminar Flag.bits cont := single.apart.imp .inr
  rw [Backend.noRemainder_iff]
  constructor
  · intro none i set
    by_contra missing
    have inRest := (laminar.getLsbD_extract (promote n flags) i).mpr
      ⟨set, fun ⟨flag, member, _, setFlag⟩ => missing ⟨flag, member, setFlag⟩⟩
    simp [none] at inRest
  · intro all
    by_contra nonzero
    obtain ⟨i, inRest⟩ := exists_bit nonzero
    have free := (laminar.getLsbD_extract (promote n flags) i).mp inRest
    obtain ⟨flag, member, setFlag⟩ := all i free.1
    exact free.2 ⟨flag, member, (single.1 flag member).contains setFlag free.1, setFlag⟩

theorem aceFlags_single : SingleBits aceFlags := by decide

theorem secDescCtrlBits_single : SingleBits secDescCtrlBits := by decide

/-- The control bits are all of the bits of a word. -/
theorem ctrl_noRemainder {order : List Flag} (perm : order.Perm secDescCtrlBits)
    (ctrl : BitVec 16) : NoRemainder .uint16 order ctrl := by
  have all : ∀ i < 16, ∃ flag ∈ secDescCtrlBits, flag.bits.getLsbD i = true := by decide
  rw [(secDescCtrlBits_single.perm perm).noRemainder_iff]
  intro i set
  simp only [promote, BitVec.getLsbD_setWidth, Bool.and_eq_true] at set
  obtain ⟨flag, member, setFlag⟩ := all i (BitVec.lt_of_getLsbD set.2)
  exact ⟨flag, perm.mem_iff.mpr member, setFlag⟩

/-- So the names of `get_acl_ctrl` stand for the control bits, in every order. -/
theorem getAclCtrl_union {order : List Flag} (perm : order.Perm secDescCtrlBits)
    (ctrl : BitVec 16) :
    union ((getAclCtrl order ctrl []).filterMap Entry.mask?) = promote .uint16 ctrl := by
  have masks : (getAclCtrl order ctrl []).filterMap Entry.mask? =
      (extract Flag.bits order (promote .uint16 ctrl)).2.map Flag.bits :=
    emittedMasks_eq .uint16 order ctrl []
  rw [masks]
  exact union_extract ((noRemainder_iff .uint16 order ctrl).mp (ctrl_noRemainder perm ctrl))

/-- The flags of an ACE have names for its lower five bits. -/
theorem ace_noRemainder_iff {order : List Flag} (perm : order.Perm aceFlags)
    (flags : BitVec 8) :
    NoRemainder .uint8 order flags ↔ ∀ i, flags.getLsbD i = true → i < 5 := by
  have all : ∀ i < 8, i < 5 ↔ ∃ flag ∈ aceFlags, flag.bits.getLsbD i = true := by decide
  rw [(aceFlags_single.perm perm).noRemainder_iff]
  refine forall_congr' fun i => ?_
  have promoted : (promote .uint8 flags).getLsbD i = true ↔ flags.getLsbD i = true := by
    simp only [promote, BitVec.getLsbD_setWidth, Bool.and_eq_true, decide_eq_true_eq]
    refine and_iff_right_of_imp fun set => ?_
    have small : i < 8 := BitVec.lt_of_getLsbD set
    omega
  rw [promoted]
  refine imp_congr_right fun set => ?_
  simp only [perm.mem_iff]
  exact (all i (BitVec.lt_of_getLsbD set)).symm

/-! ## When the flags are parted -/

/-- The flags are parted except for a remainder, which is not reported: they are parted exactly
when nothing remains. -/
theorem flagsVector_partitions_iff :
    Partitions n cont flags outVector ↔ NoRemainder n cont flags := by
  constructor
  · intro partitions
    rw [← rest_eq_zero_iff n cont flags outVector]
    by_contra nonzero
    exact hex_not_emitted n cont flags outVector _ (partitions.reported nonzero)
  · intro none
    have masks := emittedMasks_eq n cont flags outVector
    constructor
    case kept =>
      rw [flagsVector_vector]
      exact List.prefix_append _ _
    case disjoint =>
      rw [masks]
      exact extract_pairwise cont (promote n flags)
    case contained =>
      intro mask member
      rw [masks] at member
      obtain ⟨flag, taken, rfl⟩ := List.mem_map.mp member
      exact (of_mem_extract taken).2
    case rest =>
      rw [flagsVector_rest, masks]
      exact extract_rest cont (promote n flags)
    case reported =>
      intro nonzero
      exact absurd ((rest_eq_zero_iff n cont flags outVector).mpr none) nonzero
    case orderFree =>
      intro single order perm name
      rw [(single.perm perm).mem_emitted, single.mem_emitted]
      simp only [perm.mem_iff]

/-- A bit that no flag of an ACE has is lost. -/
theorem aceRemainder_lost :
    (∀ e ∈ aceFlags, e.bits ≠ 0) ∧
      (flagsVector .uint8 aceFlags 0x81 []).1 = 0x80 ∧
      (getAceFlags aceFlags 0x81 []).map Entry.text = [text "OI"] ∧
      ¬Partitions .uint8 aceFlags 0x81 [] := by
  refine ⟨by decide, by decide, by decide, fun partitions => ?_⟩
  exact hex_not_emitted .uint8 aceFlags 0x81 [] _ (partitions.reported (by decide))

end Cdcm.Backend
