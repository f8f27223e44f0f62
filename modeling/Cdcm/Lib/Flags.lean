import Mathlib

/-!
# Flags in a mask

Words of bits with flags of one or more bits, and the extraction of flags one after another:
a flag is taken when all of its bits are left.  Where any two flags are nested or disjoint, the
larger ones first, the extraction takes the bits of all flags that the mask contains.
-/

namespace Cdcm.Flags

variable {w : Nat} {α : Type}

/-- All bits of a flag are set. -/
def Contains (mask flag : BitVec w) : Prop := mask &&& flag = flag

instance (mask flag : BitVec w) : Decidable (Contains mask flag) :=
  inferInstanceAs (Decidable (_ = _))

theorem contains_iff {mask flag : BitVec w} :
    Contains mask flag ↔ ∀ i, flag.getLsbD i = true → mask.getLsbD i = true := by
  constructor
  · intro contains i set
    rw [← contains, BitVec.getLsbD_and, Bool.and_eq_true] at set
    exact set.1
  · intro subset
    apply BitVec.eq_of_getLsbD_eq
    intro i _
    rw [BitVec.getLsbD_and]
    cases set : flag.getLsbD i with
    | false => simp
    | true => simp [subset i set]

/-- Two words without a common bit. -/
def Apart (left right : BitVec w) : Prop := left &&& right = 0

instance (left right : BitVec w) : Decidable (Apart left right) :=
  inferInstanceAs (Decidable (_ = _))

theorem Apart.not_both {left right : BitVec w} (apart : Apart left right) {i : Nat}
    (set : left.getLsbD i = true) : right.getLsbD i = false := by
  have none := congrArg (BitVec.getLsbD · i) apart
  simpa [set] using none

/-- A word that is not zero has a bit. -/
theorem exists_bit {mask : BitVec w} (nonzero : mask ≠ 0) : ∃ i, mask.getLsbD i = true := by
  by_contra none
  push Not at none
  refine nonzero (BitVec.eq_of_getLsbD_eq fun i _ => ?_)
  simpa using none i

/-- The bits of all of the words. -/
def union (words : List (BitVec w)) : BitVec w := words.foldr (· ||| ·) 0

theorem getLsbD_union {words : List (BitVec w)} {i : Nat} :
    (union words).getLsbD i = true ↔ ∃ word ∈ words, word.getLsbD i = true := by
  induction words with
  | nil => simp [union]
  | cons word words ih =>
      rw [union, List.foldr_cons, BitVec.getLsbD_or, Bool.or_eq_true, ← union, ih]
      simp

/-! ## Single bits -/

/-- A flag of a single bit. -/
def Single (flag : BitVec w) : Prop := ∃ k < w, flag = BitVec.twoPow w k

instance (flag : BitVec w) : Decidable (Single flag) :=
  inferInstanceAs (Decidable (∃ k < w, _))

/-- A mask contains a single bit that is set. -/
theorem Single.contains {mask flag : BitVec w} (single : Single flag) {i : Nat}
    (set : flag.getLsbD i = true) (inMask : mask.getLsbD i = true) : Contains mask flag := by
  obtain ⟨k, _, rfl⟩ := single
  rw [contains_iff]
  intro j other
  simp only [BitVec.getLsbD_twoPow, Bool.and_eq_true, decide_eq_true_eq] at set other
  rwa [← other.2, set.2]

/-- Two single bits are the same or apart. -/
theorem Single.apart {left right : BitVec w} (singleLeft : Single left)
    (singleRight : Single right) (distinct : left ≠ right) : Apart left right := by
  obtain ⟨k, _, rfl⟩ := singleLeft
  obtain ⟨l, _, rfl⟩ := singleRight
  have apart : k ≠ l := fun same => distinct (same ▸ rfl)
  refine BitVec.eq_of_getLsbD_eq fun i _ => ?_
  simp only [BitVec.getLsbD_and, BitVec.getLsbD_twoPow, BitVec.ofNat_eq_ofNat, BitVec.getLsbD_zero]
  grind

/-! ## Extraction -/

section Extract

variable (bits : α → BitVec w)

/-- Take flags one after another; what is left of the mask, and the flags. -/
def extract : List α → BitVec w → BitVec w × List α
  | [], mask => (mask, [])
  | flag :: table, mask =>
      if Contains mask (bits flag) then
        let (rest, taken) := extract table (mask &&& ~~~bits flag)
        (rest, flag :: taken)
      else extract table mask

variable {bits}

/-- Only flags of the table are taken, and only where the mask contains them. -/
theorem of_mem_extract {table : List α} {mask : BitVec w} {flag : α}
    (taken : flag ∈ (extract bits table mask).2) : flag ∈ table ∧ Contains mask (bits flag) := by
  induction table generalizing mask with
  | nil => simp [extract] at taken
  | cons first table ih =>
      rw [extract] at taken
      split at taken
      next contains =>
        cases List.mem_cons.mp taken with
        | inl same => exact ⟨same ▸ List.mem_cons_self, same ▸ contains⟩
        | inr later =>
            have found := ih later
            refine ⟨List.mem_cons_of_mem _ found.1, contains_iff.mpr fun i set => ?_⟩
            have left := contains_iff.mp found.2 i set
            rw [BitVec.getLsbD_and, Bool.and_eq_true] at left
            exact left.1
      next =>
        have found := ih taken
        exact ⟨List.mem_cons_of_mem _ found.1, found.2⟩

/-- What is left are the bits that no flag has taken. -/
theorem getLsbD_extract (table : List α) (mask : BitVec w) (i : Nat) :
    (extract bits table mask).1.getLsbD i = true ↔
      mask.getLsbD i = true ∧
        ∀ flag ∈ (extract bits table mask).2, (bits flag).getLsbD i = false := by
  induction table generalizing mask with
  | nil => simp [extract]
  | cons first table ih =>
      rw [extract]
      split
      next contains =>
        simp only [ih, List.mem_cons, forall_eq_or_imp, BitVec.getLsbD_and, BitVec.getLsbD_not,
          Bool.and_eq_true, Bool.not_eq_true', decide_eq_true_eq, and_assoc]
        refine and_congr_right fun set => ?_
        simp [BitVec.lt_of_getLsbD set]
      next => exact ih mask

/-- What is left is the mask without the flags that are taken. -/
theorem extract_rest (table : List α) (mask : BitVec w) :
    (extract bits table mask).1 = mask &&& ~~~union ((extract bits table mask).2.map bits) := by
  refine BitVec.eq_of_getLsbD_eq fun i small => ?_
  have free := @getLsbD_union w ((extract bits table mask).2.map bits) i
  have rest := @getLsbD_extract w α bits table mask i
  simp only [List.mem_map, exists_exists_and_eq_and] at free
  rw [Bool.eq_iff_iff, rest, BitVec.getLsbD_and, Bool.and_eq_true, BitVec.getLsbD_not,
    Bool.and_eq_true, Bool.not_eq_true', decide_eq_true small, ← Bool.not_eq_true, free]
  simp

/-- Where nothing is left, the flags that are taken make up the mask. -/
theorem union_extract {table : List α} {mask : BitVec w}
    (nothing : (extract bits table mask).1 = 0) :
    union ((extract bits table mask).2.map bits) = mask := by
  refine BitVec.eq_of_getLsbD_eq fun i _ => ?_
  rw [Bool.eq_iff_iff, getLsbD_union]
  simp only [List.mem_map, exists_exists_and_eq_and]
  constructor
  · intro ⟨flag, taken, set⟩
    exact contains_iff.mp (of_mem_extract taken).2 i set
  · intro set
    by_contra missing
    push Not at missing
    have left := (getLsbD_extract table mask i).mpr
      ⟨set, fun flag taken => Bool.eq_false_of_not_eq_true (missing flag taken)⟩
    simp [nothing] at left

/-- A flag is contained in what is left behind another one when it is contained and apart. -/
theorem contains_rest {mask first flag : BitVec w} :
    Contains (mask &&& ~~~first) flag ↔ Contains mask flag ∧ Apart first flag := by
  constructor
  · intro contains
    have left (i : Nat) (set : flag.getLsbD i = true) :
        mask.getLsbD i = true ∧ first.getLsbD i = false := by
      have both := contains_iff.mp contains i set
      simp only [BitVec.getLsbD_and, BitVec.getLsbD_not, Bool.and_eq_true] at both
      exact ⟨both.1, by simpa using both.2.2⟩
    refine ⟨contains_iff.mpr fun i set => (left i set).1, ?_⟩
    refine BitVec.eq_of_getLsbD_eq fun i _ => ?_
    rw [BitVec.getLsbD_and]
    cases set : flag.getLsbD i with
    | false => simp
    | true => simp [(left i set).2]
  · intro ⟨contains, apart⟩
    rw [contains_iff] at contains ⊢
    intro i set
    have inMask := contains i set
    have notFirst : first.getLsbD i = false := by
      by_contra inFirst
      rw [Bool.not_eq_false] at inFirst
      rw [apart.not_both inFirst] at set
      contradiction
    rw [BitVec.getLsbD_and, BitVec.getLsbD_not, inMask, notFirst]
    simp [BitVec.lt_of_getLsbD inMask]

/-- Flags that are taken have no bits in common. -/
theorem extract_pairwise (table : List α) (mask : BitVec w) :
    ((extract bits table mask).2.map bits).Pairwise Apart := by
  induction table generalizing mask with
  | nil => simp [extract]
  | cons first table ih =>
      rw [extract]
      split
      next =>
        rw [List.map_cons, List.pairwise_cons]
        refine ⟨fun other taken => ?_, ih _⟩
        obtain ⟨flag, inRest, rfl⟩ := List.mem_map.mp taken
        exact (contains_rest.mp (of_mem_extract inRest).2).2
      next => exact ih mask

/-- Where flags have no bits in common, those are taken that the mask contains. -/
theorem mem_extract_of_apart {table : List α}
    (apart : table.Pairwise fun left right => Apart (bits left) (bits right)) (mask : BitVec w)
    (flag : α) :
    flag ∈ (extract bits table mask).2 ↔ flag ∈ table ∧ Contains mask (bits flag) := by
  induction table generalizing mask with
  | nil => simp [extract]
  | cons first table ih =>
      have pairwise := List.pairwise_cons.mp apart
      rw [extract]
      split
      next contains =>
        simp only [List.mem_cons, ih pairwise.2, contains_rest]
        constructor
        · intro taken
          cases taken with
          | inl same => exact ⟨.inl same, same ▸ contains⟩
          | inr later => exact ⟨.inr later.1, later.2.1⟩
        · intro ⟨member, inMask⟩
          exact member.imp id fun later => ⟨later, inMask, pairwise.1 flag later⟩
      next missing =>
        rw [ih pairwise.2, List.mem_cons]
        refine and_congr_left fun inMask => ?_
        exact (or_iff_right fun (same : flag = first) => missing (same ▸ inMask)).symm

/-- A bit of a flag in the table, the last one first, that the mask contains and of which no
bit is taken by a flag before it. -/
def Taken (bits : α → BitVec w) (mask : BitVec w) : List α → Nat → Prop
  | [], _ => False
  | flag :: before, i =>
      Taken bits mask before i ∨
        Contains mask (bits flag) ∧ (bits flag).getLsbD i = true ∧
          ∀ j, (bits flag).getLsbD j = true → ¬Taken bits mask before j

/-- What is left behind one part of a table is what the extraction of the other part is
about. -/
theorem getLsbD_extract_behind {mask left : BitVec w} {before : List α}
    (free : ∀ i, left.getLsbD i = true ↔ mask.getLsbD i = true ∧ ¬Taken bits mask before i)
    (table : List α) (i : Nat) :
    (extract bits table left).1.getLsbD i = true ↔
      mask.getLsbD i = true ∧ ¬Taken bits mask (table.reverse ++ before) i := by
  induction table generalizing left before with
  | nil => simpa [extract] using free i
  | cons flag table ih =>
      have contains_left : Contains left (bits flag) ↔ Contains mask (bits flag) ∧
          ∀ j, (bits flag).getLsbD j = true → ¬Taken bits mask before j := by
        simp only [contains_iff, free]
        exact ⟨fun all => ⟨fun j set => (all j set).1, fun j set => (all j set).2⟩,
          fun both j set => ⟨both.1 j set, both.2 j set⟩⟩
      rw [extract, List.reverse_cons, List.append_assoc, List.singleton_append]
      split
      next contains =>
        refine ih fun j => ?_
        have inMask := contains_left.mp contains
        rw [Taken, BitVec.getLsbD_and, Bool.and_eq_true, free, BitVec.getLsbD_not,
          Bool.and_eq_true, decide_eq_true_eq, Bool.not_eq_true']
        constructor
        · intro ⟨⟨set, notBefore⟩, _, notFlag⟩
          refine ⟨set, fun taken => ?_⟩
          cases taken with
          | inl taken => exact notBefore taken
          | inr taken => exact absurd taken.2.1 (by simp [notFlag])
        · intro ⟨set, notTaken⟩
          refine ⟨⟨set, fun taken => notTaken (.inl taken)⟩, BitVec.lt_of_getLsbD set, ?_⟩
          by_contra inFlag
          rw [Bool.not_eq_false] at inFlag
          exact notTaken (.inr ⟨inMask.1, inFlag, inMask.2⟩)
      next missing =>
        refine ih fun j => ?_
        rw [free, Taken]
        refine and_congr_right fun _ => not_congr (or_iff_left fun taken => ?_).symm
        exact missing (contains_left.mpr ⟨taken.1, taken.2.2⟩)

/-- What is left are the bits that no flag takes. -/
theorem getLsbD_extract_taken (table : List α) (mask : BitVec w) (i : Nat) :
    (extract bits table mask).1.getLsbD i = true ↔
      mask.getLsbD i = true ∧ ¬Taken bits mask table.reverse i := by
  have whole := @getLsbD_extract_behind w α bits mask mask [] (by simp [Taken]) table i
  rwa [List.append_nil] at whole

/-- Any two flags are nested or disjoint, the larger one first. -/
def Laminar (bits : α → BitVec w) (table : List α) : Prop :=
  table.Pairwise fun larger smaller =>
    Contains (bits larger) (bits smaller) ∨ Apart (bits larger) (bits smaller)

instance (table : List α) : Decidable (Laminar bits table) :=
  inferInstanceAs (Decidable (List.Pairwise _ _))

/-- The bits of every flag that the mask contains are taken. -/
theorem Laminar.taken {table : List α} (laminar : Laminar bits table) {mask : BitVec w} {flag : α}
    (member : flag ∈ table) (contains : Contains mask (bits flag)) {i : Nat}
    (set : (bits flag).getLsbD i = true) :
    ∃ other ∈ (extract bits table mask).2, (bits other).getLsbD i = true := by
  induction table generalizing mask with
  | nil => simp at member
  | cons first table ih =>
      have pairwise := List.pairwise_cons.mp laminar
      rw [extract]
      split
      next firstContains =>
        cases List.mem_cons.mp member with
        | inl same => exact ⟨first, List.mem_cons_self, same ▸ set⟩
        | inr later =>
            cases pairwise.1 flag later with
            | inl nested => exact ⟨first, List.mem_cons_self, contains_iff.mp nested i set⟩
            | inr apart =>
                have left : Contains (mask &&& ~~~bits first) (bits flag) :=
                  contains_rest.mpr ⟨contains, apart⟩
                obtain ⟨other, taken, setOther⟩ := ih pairwise.2 later left
                exact ⟨other, List.mem_cons_of_mem _ taken, setOther⟩
      next missing =>
        cases List.mem_cons.mp member with
        | inl same => exact absurd (same ▸ contains) missing
        | inr later => exact ih pairwise.2 later contains

/-- Where flags are nested or disjoint, what is left are the bits that are in no flag that the
mask contains. -/
theorem Laminar.getLsbD_extract {table : List α} (laminar : Laminar bits table)
    (mask : BitVec w) (i : Nat) :
    (extract bits table mask).1.getLsbD i = true ↔
      mask.getLsbD i = true ∧
        ¬∃ flag ∈ table, Contains mask (bits flag) ∧ (bits flag).getLsbD i = true := by
  rw [Flags.getLsbD_extract]
  refine and_congr_right fun _ => ?_
  constructor
  · intro free ⟨flag, member, contains, set⟩
    obtain ⟨other, taken, setOther⟩ := laminar.taken member contains set
    rw [free other taken] at setOther
    contradiction
  · intro free flag taken
    have found := of_mem_extract taken
    by_contra set
    exact free ⟨flag, found.1, found.2, by simpa using set⟩

end Extract

end Cdcm.Flags
