import Cdcm.Lib.Bytes

/-!
# Values of the registry

`registry_client::normalize`, with the indices that it reads of the blob with a value.  Both
of its loops go from one code unit to the next, and look at the unit behind a NUL.
-/

namespace Cdcm.Backend.Registry

/-! ## The code -/

/-- A blob, and the memory behind it. -/
structure DataBlob where
  data : ByteString
  behind : Nat → Byte

namespace DataBlob

def length (blob : DataBlob) : Nat := blob.data.length

/-- `data_blob_.data[i]`. -/
def byteAt (blob : DataBlob) (i : Nat) : Byte :=
  blob.data.getD i (blob.behind (i - blob.length))

end DataBlob

/-- `INT_MAX`. -/
def intMax : Nat := 2 ^ 31 - 1

/-- A loop of `normalize` from the index `i` on, which appends `onNul` at a NUL; the string,
and the indices that have been read. There is no result when the index overflows. -/
def normalizeLoop (onNul : ByteString) (blob : DataBlob) (i : Nat) (s : ByteString)
    (reads : List Nat) : Option (ByteString × List Nat) :=
  if i < blob.length then
    if blob.byteAt i = 0 then
      if intMax < i + 2 then none
      else if blob.byteAt (i + 2) = 0 then some (s ++ onNul, reads ++ [i, i + 2])
      else normalizeLoop onNul blob (i + 2) (s ++ onNul) (reads ++ [i, i + 2])
    else if intMax < i + 2 then none
    else normalizeLoop onNul blob (i + 2) (s ++ [blob.byteAt i]) (reads ++ [i])
  else some (s, reads)
termination_by blob.length - i

/-- `REG_SZ`, `REG_EXPAND_SZ` and `REG_MULTI_SZ`. -/
def regSz : Nat := 1

def regExpandSz : Nat := 2

def regMultiSz : Nat := 7

/-- `registry_client::normalize`: the value, and the indices that the loops read. For other
types the value is the text of `reg_val_data_string`, if there is one. -/
def normalize (regValDataString : Nat → ByteString → Option ByteString) (type : Nat)
    (blob : DataBlob) : Option (ByteString × List Nat) :=
  if type = regExpandSz ∨ type = regSz then normalizeLoop [] blob 0 [] []
  else if type = regMultiSz then normalizeLoop (text "\n") blob 0 [] []
  else
    match regValDataString type blob.data with
    | none => some ([], [])
    | some charPtrValue => some (cStr charPtrValue, [])

/-! ## The indices -/

/-- The index of the last unit, which may be half of one. -/
def lastUnit (data : ByteString) : Nat := 2 * ((data.length - 1) / 2)

/-- Whether the first bytes of two adjacent units from the index `i` on are zero, at indices
that an `int` reaches. -/
def HasTerminator (data : ByteString) (i : Nat) : Prop :=
  ∃ j, i ≤ j ∧ j % 2 = 0 ∧ j + 2 ≤ intMax ∧ data[j]? = some 0 ∧ data[j + 2]? = some 0

/-- The last unit begins with another byte than zero, and an `int` reaches behind it. -/
def LastNonzero (data : ByteString) : Prop :=
  lastUnit data + 2 ≤ intMax ∧ ∃ byte, data[lastUnit data]? = some byte ∧ byte ≠ 0

/-- A loop that is at an index stays inside of a blob that ends there, that has a terminator
of two units, or the last unit of which does not begin with zero. -/
def StaysInside (data : ByteString) (i : Nat) : Prop :=
  data.length ≤ i ∨ HasTerminator data i ∨ LastNonzero data

/-- There is a result, and all indices that have been read are those of the blob. -/
def ReadsInside (blob : DataBlob) (result : Option (ByteString × List Nat)) : Prop :=
  ∃ s reads, result = some (s, reads) ∧ ∀ index ∈ reads, index < blob.length

theorem DataBlob.getElem?_of_lt {blob : DataBlob} {i : Nat} (inside : i < blob.length) :
    blob.data[i]? = some (blob.byteAt i) := by
  have bound : i < blob.data.length := inside
  simp [byteAt, List.getD_eq_getElem?_getD, bound]

/-- The terminators from an index on are the one there and those from the next unit on. -/
theorem hasTerminator_step {data : ByteString} {i : Nat} (even : i % 2 = 0) :
    HasTerminator data i ↔
      (i + 2 ≤ intMax ∧ data[i]? = some 0 ∧ data[i + 2]? = some 0) ∨
        HasTerminator data (i + 2) := by
  constructor
  · intro ⟨j, from_, evenJ, reached, first, second⟩
    by_cases here : j = i
    · subst here
      exact .inl ⟨reached, first, second⟩
    · exact .inr ⟨j, by omega, evenJ, reached, first, second⟩
  · intro either
    cases either with
    | inl here => exact ⟨i, le_rfl, even, here⟩
    | inr later =>
        obtain ⟨j, from_, rest⟩ := later
        exact ⟨j, by omega, rest⟩

/-- There are no terminators behind what an `int` reaches. -/
theorem not_hasTerminator_of_overflow {data : ByteString} {i : Nat} (overflow : intMax < i + 2) :
    ¬HasTerminator data i := by
  intro ⟨j, from_, _, reached, _⟩
  omega

/-- There are no terminators at the last unit. -/
theorem not_hasTerminator_of_last {data : ByteString} {i : Nat} (last : data.length ≤ i + 2) :
    ¬HasTerminator data i := by
  intro ⟨j, from_, _, _, _, second⟩
  have inside := (List.getElem?_eq_some_iff.mp second).1
  omega

theorem lastUnit_eq {data : ByteString} {i : Nat} (even : i % 2 = 0) (inside : i < data.length)
    (last : data.length ≤ i + 2) : lastUnit data = i := by
  simp only [lastUnit]
  omega

/-- A loop does not stay inside when its index overflows. -/
theorem not_staysInside_of_overflow {data : ByteString} {i : Nat} (even : i % 2 = 0)
    (inside : i < data.length) (overflow : intMax < i + 2) : ¬StaysInside data i := by
  intro stays
  obtain ended | found | reached := stays
  · omega
  · exact not_hasTerminator_of_overflow overflow found
  · have reached := reached.1
    simp only [lastUnit] at reached
    omega

/-- Behind a unit that is no terminator nothing else decides. -/
theorem staysInside_step {data : ByteString} {i : Nat} {byte : Byte} (even : i % 2 = 0)
    (here : data[i]? = some byte) (reached : i + 2 ≤ intMax)
    (open_ : byte ≠ 0 ∨ i + 2 < data.length ∧ data[i + 2]? ≠ some 0) :
    StaysInside data i ↔ StaysInside data (i + 2) := by
  have inside := (List.getElem?_eq_some_iff.mp here).1
  have terminators : HasTerminator data i ↔ HasTerminator data (i + 2) := by
    rw [hasTerminator_step even]
    refine or_iff_right fun ⟨_, first, second⟩ => ?_
    rw [here, Option.some.injEq] at first
    cases open_ with
    | inl nonzero => exact nonzero first
    | inr next => exact next.2 second
  rw [StaysInside, StaysInside, terminators]
  by_cases last : data.length ≤ i + 2
  · have nonzero : byte ≠ 0 := open_.resolve_right fun next => absurd next.1 (Nat.not_lt.mpr last)
    have lastNonzero : LastNonzero data := by
      rw [LastNonzero, lastUnit_eq even inside last]
      exact ⟨reached, byte, here, nonzero⟩
    simp [last, lastNonzero]
  · simp [last, Nat.not_le.mpr inside]

/-- At a NUL that is the last unit a loop does not stay inside. -/
theorem not_staysInside_of_last {data : ByteString} {i : Nat} (even : i % 2 = 0)
    (here : data[i]? = some 0) (last : data.length ≤ i + 2) : ¬StaysInside data i := by
  have inside := (List.getElem?_eq_some_iff.mp here).1
  intro stays
  obtain ended | found | ⟨_, byte, same, nonzero⟩ := stays
  · omega
  · exact not_hasTerminator_of_last last found
  · rw [lastUnit_eq even inside last, here] at same
    exact nonzero (Option.some.inj same).symm

/-- A loop reads inside of the blob exactly when the rest of the blob stops it in time. -/
theorem normalizeLoop_readsInside (onNul : ByteString) (blob : DataBlob) (i : Nat)
    (s : ByteString) (reads : List Nat) (even : i % 2 = 0) :
    ReadsInside blob (normalizeLoop onNul blob i s reads) ↔
      (∀ index ∈ reads, index < blob.length) ∧ StaysInside blob.data i := by
  fun_induction normalizeLoop onNul blob i s reads with
  | case1 i s reads inside zero overflow =>
      simp [ReadsInside, not_staysInside_of_overflow even inside overflow]
  | case2 i s reads inside zero reached stops =>
      have here := DataBlob.getElem?_of_lt inside
      rw [zero] at here
      by_cases next : i + 2 < blob.length
      · have second := DataBlob.getElem?_of_lt next
        rw [stops] at second
        have stays : StaysInside blob.data i :=
          .inr (.inl ⟨i, le_rfl, even, Nat.not_lt.mp reached, here, second⟩)
        simp [ReadsInside, stays, or_imp, forall_and, inside, next]
      · have leaves := not_staysInside_of_last even here (Nat.not_lt.mp next)
        simp [ReadsInside, leaves, or_imp, forall_and, next]
  | case3 i s reads inside zero reached continues ih =>
      have here := DataBlob.getElem?_of_lt inside
      rw [zero] at here
      rw [ih (by omega)]
      by_cases next : i + 2 < blob.length
      · have second := DataBlob.getElem?_of_lt next
        have other : blob.data[i + 2]? ≠ some 0 := by
          rw [second]
          simpa using continues
        rw [staysInside_step even here (Nat.not_lt.mp reached) (.inr ⟨next, other⟩)]
        simp [or_imp, forall_and, inside, next]
      · have leaves := not_staysInside_of_last even here (Nat.not_lt.mp next)
        simp [leaves, or_imp, forall_and, next]
  | case4 i s reads inside nonzero overflow =>
      simp [ReadsInside, not_staysInside_of_overflow even inside overflow]
  | case5 i s reads inside nonzero reached ih =>
      have here := DataBlob.getElem?_of_lt inside
      rw [ih (by omega), staysInside_step even here (Nat.not_lt.mp reached) (.inl nonzero)]
      simp [or_imp, forall_and, inside]
  | case6 i s reads outside =>
      have ended : StaysInside blob.data i := .inl (Nat.not_lt.mp outside)
      simp [ReadsInside, ended]

/-! ## When the reads stay inside -/

/-- The types of strings. -/
def stringTypes : List Nat := [regSz, regExpandSz, regMultiSz]

/-- A loop over a whole blob reads inside of it. -/
def ReadsOnlyInside (data : ByteString) : Prop :=
  data = [] ∨ HasTerminator data 0 ∨ LastNonzero data

/-- The value of a string is read inside of its blob exactly when the blob is empty, or it
has a terminator of two units, or its last unit does not begin with zero. -/
theorem normalize_readsInside_iff (regValDataString : Nat → ByteString → Option ByteString)
    (type : Nat) (blob : DataBlob) (isString : type ∈ stringTypes) :
    ReadsInside blob (normalize regValDataString type blob) ↔ ReadsOnlyInside blob.data := by
  have loop (onNul : ByteString) :
      ReadsInside blob (normalizeLoop onNul blob 0 [] []) ↔ ReadsOnlyInside blob.data := by
    rw [normalizeLoop_readsInside onNul blob 0 [] [] rfl]
    simp [StaysInside, ReadsOnlyInside]
  simp only [stringTypes, List.mem_cons, List.not_mem_nil, or_false] at isString
  obtain rfl | rfl | rfl := isString
  · exact loop []
  · exact loop []
  · exact loop (text "\n")

/-- A blob with the text `A` and its terminator. -/
def terminatedBlob : DataBlob := ⟨[65, 0, 0, 0, 0, 0], fun _ => 0⟩

/-- With a terminator of two units, the text is read inside of its blob. -/
theorem terminatedBlob_readsInside :
    regSz ∈ stringTypes ∧ ReadsOnlyInside terminatedBlob.data ∧
      ReadsInside terminatedBlob (normalize (fun _ _ => none) regSz terminatedBlob) := by
  have terminated : ReadsOnlyInside terminatedBlob.data :=
    .inr (.inl ⟨2, by decide, by decide, by decide, by decide, by decide⟩)
  exact ⟨by decide, terminated, (normalize_readsInside_iff _ _ _ (by decide)).mpr terminated⟩

/-- The usual blob for the text `A` is read beyond its end. -/
theorem usualBlob_readsBehind :
    ¬∀ (regValDataString : Nat → ByteString → Option ByteString) (type : Nat) (blob : DataBlob),
      type ∈ stringTypes → ReadsInside blob (normalize regValDataString type blob) := by
  intro inside
  have reads := inside (fun _ _ => none) regSz ⟨[65, 0, 0, 0], fun _ => 0⟩ (by decide)
  obtain ⟨s, indices, same, bound⟩ := reads
  simp [normalize, regSz, regExpandSz, normalizeLoop, DataBlob.byteAt, DataBlob.length, intMax]
    at same
  have beyond := bound 4 (by simp [← same.2])
  simp [DataBlob.length] at beyond

end Cdcm.Backend.Registry
