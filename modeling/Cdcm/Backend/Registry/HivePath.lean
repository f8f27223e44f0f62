import Cdcm.Lib.Bytes
import Cdcm.Lib.Components

/-!
# Paths of registry keys

`split_hive_key` and `reg_hive_key` of `registry_utils.cpp`.  A path is split at its
backslashes, its empty parts are erased, and the others are joined again; the part in front
of the first backslash that is left names a hive.  What a path stands for is a hive and the
path of a key below it, in terms of the components of the path.
-/

namespace Cdcm.Backend.Registry

open Components

/-- The backslash. -/
def slash : Byte := 92

/-! ## The code -/

/-- `HKEY_CLASSES_ROOT` and the other handles of predefined keys. -/
def hkeyClassesRoot : Nat := 0x80000000

def hkeyCurrentUser : Nat := 0x80000001

def hkeyLocalMachine : Nat := 0x80000002

def hkeyUsers : Nat := 0x80000003

def hkeyPerformanceData : Nat := 0x80000004

/-- `hives`. -/
def hives : List (ByteString × Nat) :=
  [(text "HKLM", hkeyLocalMachine), (text "HKEY_LOCAL_MACHINE", hkeyLocalMachine),
    (text "HKCR", hkeyClassesRoot), (text "HKEY_CLASSES_ROOT", hkeyClassesRoot),
    (text "HKU", hkeyUsers), (text "HKEY_USERS", hkeyUsers),
    (text "HKCU", hkeyCurrentUser), (text "HKEY_CURRENT_USER", hkeyCurrentUser),
    (text "HKPD", hkeyPerformanceData), (text "HKEY_PERFORMANCE_DATA", hkeyPerformanceData)]

/-- `hive_long_names`. -/
def hiveLongNames : List (Nat × ByteString) :=
  [(hkeyLocalMachine, text "HKEY_LOCAL_MACHINE"), (hkeyClassesRoot, text "HKEY_CLASSES_ROOT"),
    (hkeyUsers, text "HKEY_USERS"), (hkeyCurrentUser, text "HKEY_CURRENT_USER"),
    (hkeyPerformanceData, text "HKEY_PERFORMANCE_DATA")]

/-- `slash_fold`. -/
def slashFold (left right : ByteString) : ByteString := left ++ [slash] ++ right

/-- `split_hive_key`; `none` where it reads the first of no parts. It does not always assign to
`hivename`. -/
def splitHiveKey (path hivename : ByteString) : Option (ByteString × ByteString) :=
  let strs := (path.splitOn slash).filter fun part => part ≠ []
  match strs with
  | [] => none
  | first :: rest =>
      let newPath := rest.foldl slashFold first
      match newPath.idxOf? slash with
      | some pos => some (newPath.take pos, newPath.drop (pos + 1))
      | none => some (hivename, newPath)

/-- `reg_hive_key`: its return value, and its two outputs behind the call. -/
def regHiveKey (fullname : ByteString) (regType : Nat) (subkeyname : ByteString) :
    Option (Bool × Nat × ByteString) :=
  if fullname = [] then some (false, regType, subkeyname)
  else do
    let (hivename, tmpKeyname) ← splitHiveKey fullname []
    match hives.lookup hivename with
    | none => return (false, regType, subkeyname)
    | some hive => return (true, hive, tmpKeyname)

/-! ## What a path names -/

/-- The hive and the key that a path names: its first component is the name of a hive, and
the others are the path below. -/
def namedKey (path : ByteString) : Option (Nat × ByteString) :=
  match components slash path with
  | hive :: subkey :: rest =>
      (hives.lookup hive).map fun handle => (handle, [slash].intercalate (subkey :: rest))
  | _ => none

/-- The answer for what a path names, over outputs with some values. -/
def answer (path : ByteString) (regType : Nat) (subkeyname : ByteString) :
    Bool × Nat × ByteString :=
  match namedKey path with
  | some (hive, subkey) => (true, hive, subkey)
  | none => (false, regType, subkeyname)

/-- A path is read by its components, with any number of further backslashes. -/
def ReadByComponents (path : ByteString) : Prop :=
  ∀ regType subkeyname,
    regHiveKey path regType subkeyname = some (answer path regType subkeyname) ∧
    ∀ other, Relation.EqvGen (Padded slash) path other →
      regHiveKey other regType subkeyname = regHiveKey path regType subkeyname

/-! ## Joining and splitting again -/

/-- The fold joins with single backslashes. -/
theorem foldl_slashFold (first : ByteString) (rest : List ByteString) :
    rest.foldl slashFold first = [slash].intercalate (first :: rest) := by
  induction rest generalizing first with
  | nil => simp
  | cons second rest ih =>
      rw [List.foldl_cons, ih, List.intercalate_cons_cons]
      cases rest with
      | nil => simp [slashFold]
      | cons third rest => simp [slashFold, List.intercalate_cons_cons]

/-- The first backslash stands behind a part that has none. -/
theorem idxOf_slash {part : ByteString} (free : slash ∉ part) (after : ByteString) :
    (part ++ slash :: after).idxOf? slash = some part.length := by
  induction part with
  | nil => simp [List.idxOf?_cons]
  | cons first part ih =>
      have different : first ≠ slash := fun same => free (same ▸ List.mem_cons_self)
      have rest := ih fun member => free (List.mem_cons_of_mem _ member)
      simp [List.idxOf?_cons, different, rest]

/-- `split_hive_key` in terms of components. -/
theorem splitHiveKey_eq (path hivename : ByteString) :
    splitHiveKey path hivename =
      match components slash path with
      | [] => none
      | [only] => some (hivename, only)
      | first :: second :: rest => some (first, [slash].intercalate (second :: rest)) := by
  have free : ∀ part ∈ components slash path, slash ∉ part :=
    fun part member => separator_not_mem member
  rw [splitHiveKey, ← components]
  generalize components slash path = parts at free
  cases parts with
  | nil => rfl
  | cons first rest =>
      have firstFree := free first List.mem_cons_self
      cases rest with
      | nil =>
          have missing : first.idxOf? slash = none := List.idxOf?_eq_none_iff.mpr firstFree
          simp [missing]
      | cons second rest =>
          simp only [foldl_slashFold]
          rw [List.intercalate_cons_cons, List.append_assoc, List.singleton_append,
            idxOf_slash firstFree]
          simp

/-- A path with something besides backslashes is read as what it names. -/
theorem regHiveKey_eq {path : ByteString} (regType : Nat) (subkeyname : ByteString)
    (named : ∃ byte ∈ path, byte ≠ slash) :
    regHiveKey path regType subkeyname = some (answer path regType subkeyname) := by
  have nonempty : path ≠ [] := by
    rintro rfl
    simp at named
  have some : components slash path ≠ [] := by
    rw [Ne, components_eq_nil_iff]
    push Not
    exact named
  have nameless : hives.lookup [] = none := by decide
  rw [regHiveKey, if_neg nonempty, splitHiveKey_eq, answer, namedKey]
  generalize components slash path = parts at some
  match parts with
  | [] => contradiction
  | [only] => simp [nameless]
  | hive :: second :: rest => cases found : hives.lookup hive <;> simp [found]

example : answer (text "\\\\HKLM\\Software\\\\Vendor\\") 0 [] =
    (true, hkeyLocalMachine, text "Software\\Vendor") := by
  decide

/-- A path of backslashes only is not read. -/
theorem regHiveKey_backslashes {path : ByteString} (regType : Nat) (subkeyname : ByteString)
    (nonempty : path ≠ []) (only : ∀ byte ∈ path, byte = slash) :
    regHiveKey path regType subkeyname = none := by
  rw [regHiveKey, if_neg nonempty, splitHiveKey_eq, components_eq_nil_iff.mpr only]
  rfl

/-- Redundant backslashes do not change what a path names. -/
theorem answer_eq_of_eqvGen {path other : ByteString} (regType : Nat) (subkeyname : ByteString)
    (same : Relation.EqvGen (Padded slash) path other) :
    answer other regType subkeyname = answer path regType subkeyname := by
  rw [answer, answer, namedKey, namedKey, components_eq_of_eqvGen same]

/-! ## When a path is read by its components -/

/-- A path is read by its components exactly when there is something besides backslashes
in it. -/
theorem readByComponents_iff (path : ByteString) (nonempty : path ≠ []) :
    ReadByComponents path ↔ ∃ byte ∈ path, byte ≠ slash := by
  constructor
  · intro reads
    by_contra only
    push Not at only
    have undefined := regHiveKey_backslashes 0 [] nonempty only
    have defined := (reads 0 []).1
    rw [undefined] at defined
    contradiction
  · intro named regType subkeyname
    refine ⟨regHiveKey_eq regType subkeyname named, fun other same => ?_⟩
    have otherNamed : ∃ byte ∈ other, byte ≠ slash := by
      by_contra only
      push Not at only
      have none := components_eq_of_eqvGen same
      rw [components_eq_nil_iff.mpr only, components_eq_nil_iff] at none
      obtain ⟨byte, member, different⟩ := named
      exact different (none byte member)
    rw [regHiveKey_eq regType subkeyname named, regHiveKey_eq regType subkeyname otherNamed,
      answer_eq_of_eqvGen regType subkeyname same]

/-- A path with redundant backslashes names a key below the hive. -/
theorem paddedPath_read :
    text "\\HKLM\\\\Software\\" ≠ [] ∧ ReadByComponents (text "\\HKLM\\\\Software\\") ∧
      regHiveKey (text "\\HKLM\\\\Software\\") 0 [] =
        some (true, hkeyLocalMachine, text "Software") := by
  have named : ∃ byte ∈ text "\\HKLM\\\\Software\\", byte ≠ slash :=
    ⟨72, by decide +kernel, by decide⟩
  have reads := (readByComponents_iff _ (by decide)).mpr named
  have read : answer (text "\\HKLM\\\\Software\\") 0 [] =
      (true, hkeyLocalMachine, text "Software") := by
    decide +kernel
  exact ⟨by decide +kernel, reads, (reads 0 []).1.trans (congrArg some read)⟩

/-- A single backslash is a path that is not read. -/
theorem backslash_not_read :
    ¬∀ path : ByteString, path ≠ [] → ReadByComponents path := by
  intro reads
  have defined := (reads [slash] (List.cons_ne_nil _ _) 0 []).1
  rw [regHiveKey_backslashes 0 [] (List.cons_ne_nil _ _) (by simp)] at defined
  contradiction

end Cdcm.Backend.Registry
