import Cdcm.Backend.Pe.VersionLayout

/-!
# What the walk over the strings returns

The part of `extract_info` behind the mapping reads the buffer and does not change it.  So
what it returns depends on the buffer alone: the walk visits a chain of records, each at the
padded end of the one before, and the entries of `ret` are the values that it reads at
those with a wanted key.
-/

namespace Cdcm.Backend.Pe

open Hoare

/-- What a program returns on a buffer, which it leaves as it is; nothing when it stops. -/
def Yields (data : ByteString) {α : Type} (program : Method α) (result : Option α) : Prop :=
  ∀ context, context.fm.data = data →
    match program.run context with
    | .ok value next => result = some value ∧ next.fm.data = data
    | .error _ _ => result = none

namespace Yields

variable {data : ByteString} {α β : Type} {program : Method α} {rest : α → Method β}

theorem pure {value : α} : Yields data (Pure.pure value) (some value) :=
  fun _ same => ⟨rfl, same⟩

theorem throw {reason : Stop} : Yields data (MonadExcept.throw reason : Method α) none :=
  fun _ _ => rfl

theorem bind {value : α} {result : Option β} (first : Yields data program (some value))
    (second : Yields data (rest value) result) : Yields data (program >>= rest) result := by
  intro context same
  have ran := first context same
  cases isRun : program.run context with
  | ok found next =>
      rw [isRun] at ran
      obtain ⟨isValue, kept⟩ := ran
      rw [run_bind isRun, ← Option.some.inj isValue]
      exact second next kept
  | error reason next =>
      rw [isRun] at ran
      contradiction

theorem bind_none (first : Yields data program none) : Yields data (program >>= rest) none := by
  intro context same
  have ran := first context same
  change match EStateM.bind program rest context with
    | .ok value next => none = some value ∧ next.fm.data = data
    | .error _ _ => none = none
  rw [EStateM.bind]
  rw [EStateM.run] at ran
  cases isRun : program context with
  | ok found next =>
      rw [isRun] at ran
      exact nomatch ran.1
  | error reason next => rfl

theorem ite {condition : Prop} [Decidable condition] {yes no : Method α} {result : Option α}
    (holds : condition → Yields data yes result) (fails : ¬ condition → Yields data no result) :
    Yields data (if condition then yes else no) result := by
  split
  · next condition => exact holds condition
  · next condition => exact fails condition

theorem deref {offset size : Nat} (within : offset + size ≤ data.length) :
    Yields data (Pe.deref offset size) (some (field data offset size)) := by
  intro context same
  rw [deref_run, same, if_pos within]
  exact ⟨rfl, same⟩

theorem deref_outside {offset size : Nat} (outside : ¬ offset + size ≤ data.length) :
    Yields data (Pe.deref offset size) none := by
  intro context same
  rw [deref_run, same, if_neg outside]

theorem bufferTurns : Yields data bufferTurns (some (data.length + 1)) := by
  intro context same
  rw [← same]
  exact ⟨rfl, rfl⟩

/-- The result is the one of every run on the buffer. -/
theorem returned_eq {result : Option α} (yields : Yields data program result)
    {context : PeContext} (same : context.fm.data = data) : returned program context = result := by
  have ran := yields context same
  unfold returned
  cases isRun : program.run context with
  | ok value next =>
      rw [isRun] at ran
      exact ran.1.symm
  | error reason next =>
      rw [isRun] at ran
      exact ran.symm

end Yields

/-! ## Texts -/

section Texts

variable {data : ByteString}

theorem readUnits_yields (short : data.length < 2 ^ 63) {turns p : Nat} {text : U16String}
    (isText : StringAt data data.length p text) (enough : data.length < p + 2 * turns) :
    Yields data (readUnits turns p) (some text) := by
  induction isText generalizing turns with
  | nil within zero =>
      cases turns with
      | zero => omega
      | succ turns =>
          apply Yields.bind (Yields.deref within)
          rw [if_pos zero]
          exact Yields.pure
  | @cons p rest within nonzero _ ih =>
      cases turns with
      | zero => omega
      | succ turns =>
          have behind : ptrAdd p 2 = p + 2 := ptrAdd_eq (by omega)
          apply Yields.bind (Yields.deref within)
          rw [if_neg nonzero, behind]
          exact Yields.bind (ih (by omega)) Yields.pure

theorem readUnits_none (short : data.length < 2 ^ 63) {turns p : Nat}
    (noText : ∀ text, ¬ StringAt data data.length p text) :
    Yields data (readUnits turns p) none := by
  induction turns generalizing p with
  | zero => exact Yields.throw
  | succ turns ih =>
      by_cases within : p + 2 ≤ data.length
      · have behind : ptrAdd p 2 = p + 2 := ptrAdd_eq (by omega)
        apply Yields.bind (Yields.deref within)
        apply Yields.ite
        · exact fun zero => absurd (.nil within zero) (noText [])
        · intro nonzero
          rw [behind]
          apply Yields.bind_none
          apply ih
          exact fun text isText => noText _ (.cons within nonzero isText)
      · exact Yields.bind_none (Yields.deref_outside within)

theorem readString_yields (short : data.length < 2 ^ 63) {p : Nat} {text : U16String}
    (isText : StringAt data data.length p text) : Yields data (readString p) (some text) :=
  Yields.bind Yields.bufferTurns (readUnits_yields short isText (by omega))

theorem readString_none (short : data.length < 2 ^ 63) {p : Nat}
    (noText : ∀ text, ¬ StringAt data data.length p text) : Yields data (readString p) none :=
  Yields.bind Yields.bufferTurns (readUnits_none short noText)

/-- The scan returns the child that the chain leads to. -/
theorem findStringFileInfo_yields (short : data.length < 2 ^ 63) {turns vih child : Nat}
    (isChild : ChildrenAt data data.length vih child) (enough : data.length < vih + turns) :
    Yields data (findStringFileInfo turns vih) (some child) := by
  have header : sizeofVersionInfoHeader = 6 := rfl
  induction isChild generalizing turns with
  | @found vih isKey =>
      have within := isKey.within
      have keyAt : ptrAdd vih sizeofVersionInfoHeader = vih + sizeofVersionInfoHeader :=
        ptrAdd_eq (by omega)
      cases turns with
      | zero => omega
      | succ turns =>
          rw [findStringFileInfo, keyAt]
          apply Yields.bind (readString_yields short isKey)
          rw [if_pos rfl]
          exact Yields.pure
  | @next vih child key isKey differs behind ih =>
      have within := isKey.within
      have later := behind.within
      have step : 0 < childStep (field data vih 2) ∧ childStep (field data vih 2) < 2 ^ 16 :=
        childStep_pos vih
      have keyAt : ptrAdd vih sizeofVersionInfoHeader = vih + sizeofVersionInfoHeader :=
        ptrAdd_eq (by omega)
      have behindAt : ptrAdd vih (childStep (field data vih 2)) =
          vih + childStep (field data vih 2) := ptrAdd_eq (by omega)
      cases turns with
      | zero => omega
      | succ turns =>
          rw [findStringFileInfo, keyAt]
          apply Yields.bind (readString_yields short isKey)
          rw [if_neg differs]
          apply Yields.bind (Yields.deref (by omega))
          rw [behindAt]
          exact ih (by omega)

end Texts

/-! ## The walk -/

section Walk

variable (data : ByteString) (bufferEnd : Nat)

/-- The records that the walk visits from some position on: their keys, and where they are.
It is over at one without a length, or with a length that is too long. -/
inductive WalkAt : Nat → List (U16String × Nat) → Prop where
  | done {p : Nat} (within : p + 2 ≤ data.length)
      (ends : field data p 2 = 0 ∨ bufferEnd < p + field data p 2) : WalkAt p []
  | next {p : Nat} {key : U16String} {behind : List (U16String × Nat)}
      (positive : 0 < field data p 2) (fits : p + field data p 2 ≤ bufferEnd)
      (isKey : StringAt data data.length (p + sizeofVersionInfoHeader) key)
      (rest : WalkAt (padded (p + field data p 2)) behind) : WalkAt p ((key, p) :: behind)

/-- The values of the wanted records end inside the buffer. -/
def Readable (wanted : List U16String) (walk : List (U16String × Nat)) : Prop :=
  ∀ record ∈ walk, record.1 ∈ wanted →
    ∃ text, StringAt data data.length (valueOf data record.2) text

/-- A wanted record, and the value that is read at it, go into the map. -/
def collect (wanted : List U16String) (text : Nat → U16String) (ret : U16Map)
    (record : U16String × Nat) : U16Map :=
  if record.1 ∈ wanted then ret.assign record.1 (text record.2) else ret

end Walk

section Walk

variable {data : ByteString} {bufferEnd : Nat} {wanted : List U16String}

theorem WalkAt.unique {p : Nat} {walk other : List (U16String × Nat)}
    (walks : WalkAt data bufferEnd p walk) (walksOther : WalkAt data bufferEnd p other) :
    walk = other := by
  induction walks generalizing other with
  | done _ ends =>
      cases walksOther with
      | done _ _ => rfl
      | next positive fits _ _ => omega
  | next positive fits isKey _ ih =>
      cases walksOther with
      | done _ ends => omega
      | next _ _ isOtherKey rest => rw [isKey.unique isOtherKey, ih rest]

theorem readValue_yields (short : data.length < 2 ^ 63) {p : Nat} {key : U16String}
    (text : Nat → U16String) {ret : U16Map} (within : p + 4 ≤ data.length)
    (isText : key ∈ wanted → StringAt data data.length (valueOf data p) (text p)) :
    Yields data (readValue wanted p (p + field data p 2) key ret)
      (some (collect wanted text ret (key, p))) := by
  have lengthAt : ptrAdd p 2 = p + 2 := ptrAdd_eq (by omega)
  unfold readValue collect
  by_cases isWanted : key ∈ wanted
  · rw [if_pos isWanted, if_pos isWanted, lengthAt]
    apply Yields.bind (Yields.deref (by omega))
    apply Yields.bind (readString_yields short (isText isWanted))
    exact Yields.pure
  · rw [if_neg isWanted, if_neg isWanted]
    exact Yields.pure

/-- Along the chain, the wanted records are collected. -/
theorem readStrings_yields (short : data.length < 2 ^ 63) {turns p : Nat}
    {walk : List (U16String × Nat)} {text : Nat → U16String} {ret : U16Map}
    (walks : WalkAt data bufferEnd p walk)
    (isText : ∀ record ∈ walk, record.1 ∈ wanted →
      StringAt data data.length (valueOf data record.2) (text record.2))
    (enough : data.length < p + turns) :
    Yields data (readStrings wanted bufferEnd turns p ret)
      (some (walk.foldl (collect wanted text) ret)) := by
  induction walks generalizing turns ret with
  | @done p within ends =>
      have length := field_lt data p 2
      have endAt : ptrAdd p (field data p 2) = p + field data p 2 := ptrAdd_eq (by omega)
      cases turns with
      | zero => omega
      | succ turns =>
          apply Yields.bind (Yields.deref within)
          rw [endAt, if_neg (by omega)]
          exact Yields.pure
  | @next p key behind positive fits isKey rest ih =>
      have header : sizeofVersionInfoHeader = 6 := rfl
      have length := field_lt data p 2
      have within := isKey.within
      have endAt : ptrAdd p (field data p 2) = p + field data p 2 := ptrAdd_eq (by omega)
      have keyAt : ptrAdd p sizeofVersionInfoHeader = p + sizeofVersionInfoHeader :=
        ptrAdd_eq (by omega)
      have aligned : align (p + field data p 2) = padded (p + field data p 2) :=
        align_eq (by omega)
      cases turns with
      | zero => omega
      | succ turns =>
          apply Yields.bind (Yields.deref (by omega))
          rw [endAt, if_pos ⟨positive, fits⟩, keyAt]
          apply Yields.bind (readString_yields short isKey)
          apply Yields.bind (readValue_yields short text (by omega) (isText _ List.mem_cons_self))
          rw [aligned, List.foldl_cons]
          apply ih
          · exact fun record member => isText record (List.mem_cons_of_mem _ member)
          · unfold padded
            omega

/-- Without such a chain, or where a value does not end, the walk stops. -/
theorem readStrings_none (short : data.length < 2 ^ 63) {turns p : Nat} {ret : U16Map}
    (noWalk : ∀ walk, WalkAt data bufferEnd p walk → ¬ Readable data wanted walk) :
    Yields data (readStrings wanted bufferEnd turns p ret) none := by
  induction turns generalizing p ret with
  | zero => exact Yields.throw
  | succ turns ih =>
      have header : sizeofVersionInfoHeader = 6 := rfl
      have length := field_lt data p 2
      by_cases within : p + 2 ≤ data.length
      · have endAt : ptrAdd p (field data p 2) = p + field data p 2 := ptrAdd_eq (by omega)
        have keyAt : ptrAdd p sizeofVersionInfoHeader = p + sizeofVersionInfoHeader :=
          ptrAdd_eq (by omega)
        have aligned : align (p + field data p 2) = padded (p + field data p 2) :=
          align_eq (by omega)
        apply Yields.bind (Yields.deref within)
        rw [endAt, keyAt]
        apply Yields.ite
        · intro continues
          by_cases hasKey : ∃ key, StringAt data data.length (p + sizeofVersionInfoHeader) key
          · obtain ⟨key, isKey⟩ := hasKey
            have keyWithin := isKey.within
            apply Yields.bind (readString_yields short isKey)
            by_cases hasValue : key ∈ wanted →
                ∃ text, StringAt data data.length (valueOf data p) text
            · -- The values are there, so what is missing is behind this record.
              have behind : ∀ walk, WalkAt data bufferEnd (padded (p + field data p 2)) walk →
                  ¬ Readable data wanted walk := by
                intro walk walks readable
                apply noWalk _ (.next continues.1 continues.2 isKey walks)
                intro record member
                cases List.mem_cons.mp member with
                | inl same => rw [same]; exact hasValue
                | inr later => exact readable record later
              by_cases isWanted : key ∈ wanted
              · obtain ⟨text, isText⟩ := hasValue isWanted
                apply Yields.bind (readValue_yields short (fun _ => text) (by omega)
                  fun _ => isText)
                rw [aligned]
                exact ih behind
              · apply Yields.bind (readValue_yields short (fun _ => []) (by omega)
                  fun holds => absurd holds isWanted)
                rw [aligned]
                exact ih behind
            · obtain ⟨isWanted, noText⟩ := Classical.not_imp.mp hasValue
              have lengthAt : ptrAdd p 2 = p + 2 := ptrAdd_eq (by omega)
              apply Yields.bind_none
              unfold readValue
              rw [if_pos isWanted, lengthAt]
              apply Yields.bind (Yields.deref (by omega))
              apply Yields.bind_none
              exact readString_none short (not_exists.mp noText)
          · exact Yields.bind_none (readString_none short (not_exists.mp hasKey))
        · intro stays
          have isDone : WalkAt data bufferEnd p [] := .done within (by omega)
          exact absurd nofun (noWalk [] isDone)
      · exact Yields.bind_none (Yields.deref_outside within)

end Walk

/-! ## The entries of the map -/

section Entries

variable {wanted : List U16String} {text : Nat → U16String}

theorem lookup_filter_ne {k key : U16String} (differs : key ≠ k) (ret : U16Map) :
    (ret.filter fun entry => entry.1 ≠ k).lookup key = ret.lookup key := by
  induction ret with
  | nil => rfl
  | cons entry rest ih =>
      by_cases same : entry.1 = k
      · have other : (key == entry.1) = false := beq_false_of_ne (same ▸ differs)
        rw [List.filter_cons_of_neg (by simpa using same), ih, List.lookup_cons, other]
      · rw [List.filter_cons_of_pos (by simpa using same), List.lookup_cons, List.lookup_cons, ih]

theorem lookup_assign (ret : U16Map) (k v key : U16String) :
    (ret.assign k v).lookup key = if key = k then some v else ret.lookup key := by
  unfold U16Map.assign
  by_cases same : key = k
  · rw [if_pos same, same, List.lookup_cons_self]
  · rw [if_neg same, List.lookup_cons, beq_false_of_ne same]
    exact lookup_filter_ne same ret

/-- The position of the last record with a key. -/
def lastAt (key : U16String) : List (U16String × Nat) → Option Nat
  | [] => none
  | record :: rest => (lastAt key rest).or (if record.1 = key then some record.2 else none)

theorem lastAt_append (key : U16String) (front back : List (U16String × Nat)) :
    lastAt key (front ++ back) = (lastAt key back).or (lastAt key front) := by
  induction front with
  | nil => simp [lastAt]
  | cons record rest ih => rw [List.cons_append, lastAt, lastAt, ih, Option.or_assoc]

theorem mem_of_lastAt {key : U16String} {walk : List (U16String × Nat)} {p : Nat}
    (isLast : lastAt key walk = some p) : (key, p) ∈ walk := by
  induction walk with
  | nil => contradiction
  | cons record rest ih =>
      rw [lastAt] at isLast
      cases later : lastAt key rest with
      | some position =>
          rw [later, Option.some_or] at isLast
          exact List.mem_cons_of_mem _ (ih (isLast ▸ later))
      | none =>
          rw [later, Option.none_or] at isLast
          split at isLast
          next same =>
            rw [← same, ← Option.some.inj isLast]
            exact List.mem_cons_self
          next => contradiction

/-- What the map holds behind the walk: for a wanted key the value at its last record. -/
theorem lookup_collected {key : U16String} (isWanted : key ∈ wanted)
    (walk : List (U16String × Nat)) (ret : U16Map) :
    (walk.foldl (collect wanted text) ret).lookup key =
      ((lastAt key walk).map text).or (ret.lookup key) := by
  induction walk generalizing ret with
  | nil => rfl
  | cons record rest ih =>
      rw [List.foldl_cons, ih, lastAt, collect]
      by_cases same : record.1 = key
      · rw [if_pos same, if_pos (same ▸ isWanted), lookup_assign, if_pos same.symm]
        cases lastAt key rest <;> rfl
      · rw [if_neg same, Option.or_none]
        split
        · rw [lookup_assign, if_neg (Ne.symm same)]
        · rfl

theorem lookup_not_collected {key : U16String} (notWanted : key ∉ wanted)
    (walk : List (U16String × Nat)) (ret : U16Map) :
    (walk.foldl (collect wanted text) ret).lookup key = ret.lookup key := by
  induction walk generalizing ret with
  | nil => rfl
  | cons record rest ih =>
      rw [List.foldl_cons, ih, collect]
      split
      next isWanted =>
        have differs : key ≠ record.1 := fun same => notWanted (same ▸ isWanted)
        rw [lookup_assign, if_neg differs]
      next => rfl

end Entries

end Cdcm.Backend.Pe
