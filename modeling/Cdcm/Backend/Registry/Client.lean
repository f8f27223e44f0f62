import Cdcm.Backend.Actions
import Cdcm.Backend.Registry.HivePath
import Cdcm.Backend.Registry.Normalize

/-!
# The registry client

`registry_client::open_key`, `key_get_info`, `key_get_value_by_index` and the two
enumerations over a server that answers every call with success or with an error.  The
variables that the calls fill in live across the turns of the loops, or begin without a
value; a read of such a variable has no result.
-/

namespace Cdcm.Backend.Registry

/-! ## Answers -/

/-- The answer of the server to a call for an index. A call that fails may have written to
the variables that it was given. -/
inductive Answer (data written : Type) where
  | ok (data : data)
  | failed (werror : Nat) (written : Option written)

/-- Whether a call has succeeded. -/
def Answer.IsOk {data written : Type} (answer : Answer data written) : Prop :=
  ∃ data, answer = .ok data

/-- What `reg_key_get_subkey_by_index` gives; the class may be a null pointer. -/
structure SubKeyData where
  name : ByteString
  className : Option ByteString
  lastModTime : Nat

/-- The variables of the loop over the subkeys; a name and a class may be null pointers, and
the time may not have been set. -/
structure SubKeyVars where
  nm : Option ByteString
  cnm : Option ByteString
  lm : Option Nat

/-- What `reg_key_get_value_by_index` gives. -/
structure ValueData where
  name : ByteString
  type : Nat
  blob : DataBlob

/-- A server, with the texts of times and of values of other types than strings. -/
structure Server where
  getPredefinedKey : Nat → Nat
  openKey : Nat → ByteString → Nat
  getInfo : Nat
  numSubKeys : Nat
  numValues : Nat
  subKeyByIndex : Nat → Answer SubKeyData SubKeyVars
  valueByIndex : Nat → Answer ValueData (Option ByteString)
  ctime : Nat → ByteString
  regValDataString : Nat → ByteString → Option ByteString

/-! ## The code -/

/-- `reg_type_string`. -/
def regTypeString (type : Nat) : ByteString :=
  ([text "REG_NONE", text "REG_SZ", text "REG_EXPAND_SZ", text "REG_BINARY", text "REG_DWORD",
    text "REG_DWORD_BIG_ENDIAN", text "REG_LINK", text "REG_MULTI_SZ", text "REG_RESOURCE_LIST",
    text "REG_FULL_RESOURCE_DESCRIPTOR", text "REG_RESOURCE_REQUIREMENTS_LIST",
    text "REG_QWORD"] : List ByteString).getD type []

/-- The `WERROR` for `NT_STATUS_INVALID_PARAMETER`. -/
def werrInvalidParameter : Nat := 87

/-- The `result` for a `WERROR`. -/
def werrorResult (werror : Nat) : WResult := ⟨werror = 0, werror⟩

variable (server : Server)

/-- `registry_client::open_key`. -/
def openKey (fullPath : ByteString) : Option WResult := do
  let (found, hive, keyname) ← regHiveKey (cStr fullPath) 0 []
  if !found then return ⟨false, werrInvalidParameter⟩
  else if server.getPredefinedKey hive ≠ 0 then
    return werrorResult (server.getPredefinedKey hive)
  else
    let _ ← hiveLongNames.lookup hive
    return werrorResult (server.openKey hive keyname)

/-- The loop over the indices below a number, which appends an entry in every turn. -/
def collect {σ α : Type} (turn : σ → Nat → Option (σ × α)) (vars : σ) :
    Nat → Option (σ × List α)
  | 0 => some (vars, [])
  | number + 1 => do
      let (vars, entries) ← collect turn vars number
      let (vars, entry) ← turn vars number
      return (vars, entries ++ [entry])

/-- The entry for a subkey. -/
def subKeyEntry (name : ByteString) (className : Option ByteString) (time : Nat) : SubKey :=
  ⟨name, className.getD (text "None"), server.ctime time⟩

/-- A turn of the loop over the subkeys, which ignores the result of its call. -/
def subKeyTurn (vars : SubKeyVars) (i : Nat) : Option (SubKeyVars × SubKey) := do
  let vars :=
    match server.subKeyByIndex i with
    | .ok data => ⟨some data.name, data.className, some data.lastModTime⟩
    | .failed _ written => written.getD vars
  let lm ← vars.lm
  let nm ← vars.nm
  return (vars, subKeyEntry server nm vars.cnm lm)

/-- `key_get_value_by_index` on a value without a type: the value, and the name where it has
been set. -/
def keyGetValueByIndex (i : Nat) : Option (RegistryValue × Option ByteString) :=
  match server.valueByIndex i with
  | .ok data => do
      let (value, _) ← normalize server.regValDataString data.type data.blob
      return (⟨[], regTypeString data.type, value⟩, some data.name)
  | .failed _ written => some (⟨[], [], []⟩, written.join)

/-- A turn of the loop over the values, which ignores the result of its call. -/
def valueTurn (_ : Unit) (i : Nat) : Option (Unit × RegistryValue) := do
  let (rv, name) ← keyGetValueByIndex server i
  let name ← name
  return ((), { rv with name := name })

/-- `enum_key`. -/
structure EnumKey where
  subKeys : List SubKey
  registryValues : List RegistryValue

/-- `registry_client::enumerate_key`, into an `enum_key` without entries. -/
def enumerateKey (key : ByteString) : Option (WResult × EnumKey) := do
  let status ← openKey server key
  if !status.ok then return (status, ⟨[], []⟩)
  else
    let status := werrorResult server.getInfo
    if !status.ok then return (status, ⟨[], []⟩)
    else
      let (_, subKeys) ← collect (subKeyTurn server) ⟨none, none, none⟩ server.numSubKeys
      let (_, values) ← collect (valueTurn server) () server.numValues
      return (status, ⟨subKeys, values⟩)

/-- `registry_client::enumerate_key_values`, into an `enum_key_values` without entries. -/
def enumerateKeyValues (key : ByteString) : Option (WResult × List RegistryValue) := do
  let status ← openKey server key
  if !status.ok then return (status, [])
  else
    let status := werrorResult server.getInfo
    if !status.ok then return (status, [])
    else
      let (_, values) ← collect (valueTurn server) () server.numValues
      return (status, values)

/-! ## What the answers say -/

/-- The entry that the answer for a subkey gives. -/
def answeredSubKey (i : Nat) : Option SubKey :=
  match server.subKeyByIndex i with
  | .ok data => some (subKeyEntry server data.name data.className data.lastModTime)
  | .failed _ _ => none

/-- The entry that the answer for a value gives. -/
def answeredValue (i : Nat) : Option RegistryValue :=
  match server.valueByIndex i with
  | .ok data =>
      (normalize server.regValDataString data.type data.blob).map fun (value, _) =>
        ⟨data.name, regTypeString data.type, value⟩
  | .failed _ _ => none

/-- Every entry is the one that the answer for its index gives. -/
def BuiltFrom {α : Type} (answered : Nat → Option α) (entries : List α) : Prop :=
  ∀ i entry, entries[i]? = some entry → answered i = some entry

/-- `enumerate_key` returns an error, or entries from the answers. -/
def KeyReported (key : ByteString) : Prop :=
  ∃ status ek, enumerateKey server key = some (status, ek) ∧
    (status.ok = false ∨
      BuiltFrom (answeredSubKey server) ek.subKeys ∧
        BuiltFrom (answeredValue server) ek.registryValues)

/-- `enumerate_key_values` returns an error, or entries from the answers. -/
def KeyValuesReported (key : ByteString) : Prop :=
  ∃ status values, enumerateKeyValues server key = some (status, values) ∧
    (status.ok = false ∨ BuiltFrom (answeredValue server) values)

/-- The calls for the subkeys succeed. -/
def SubKeysAnswered : Prop := ∀ i < server.numSubKeys, (server.subKeyByIndex i).IsOk

/-- The calls for the values succeed, with values that `normalize` gets through. -/
def ValuesAnswered : Prop :=
  ∀ i < server.numValues, ∃ data, server.valueByIndex i = .ok data ∧
    (normalize server.regValDataString data.type data.blob).isSome

/-- The path of the key is empty or has something besides backslashes, and if the key is
opened and described, then the calls for its indices are `answered`. -/
def Enumerable (key : ByteString) (answered : Prop) : Prop :=
  (cStr key = [] ∨ ∃ byte ∈ cStr key, byte ≠ slash) ∧
    ∀ status, openKey server key = some status → status.ok = true → server.getInfo = 0 →
      answered

/-! ## Opening a key -/

/-- Every hive has a long name. -/
theorem hiveLongNames_of_namedKey {path keyname : ByteString} {hive : Nat}
    (named : namedKey path = some (hive, keyname)) : (hiveLongNames.lookup hive).isSome := by
  have long : ∀ entry ∈ hives, (hiveLongNames.lookup entry.2).isSome := by decide
  rw [namedKey] at named
  split at named
  next name subkey rest parts =>
    obtain ⟨handle, found, same⟩ := Option.map_eq_some_iff.mp named
    obtain ⟨rfl, -⟩ := Prod.mk.inj same
    obtain ⟨before, after, whole, -⟩ := List.lookup_eq_some_iff.mp found
    exact long (name, handle) (by simp [whole])
  next => contradiction

/-- The path of a key is read unless there are only backslashes in it. -/
theorem openKey_isSome_iff (key : ByteString) :
    (openKey server key).isSome ↔ cStr key = [] ∨ ∃ byte ∈ cStr key, byte ≠ slash := by
  by_cases empty : cStr key = []
  · simp [openKey, regHiveKey, empty]
  · by_cases named : ∃ byte ∈ cStr key, byte ≠ slash
    · have read := regHiveKey_eq 0 [] named
      simp only [named, or_true, iff_true]
      rw [openKey, read, answer]
      cases key_ : namedKey (cStr key) with
      | none => simp
      | some pair =>
          obtain ⟨hive, keyname⟩ := pair
          have long : (hiveLongNames.lookup hive).isSome := hiveLongNames_of_namedKey key_
          obtain ⟨name, found⟩ := Option.isSome_iff_exists.mp long
          by_cases predefined : server.getPredefinedKey hive = 0 <;> simp [predefined, found]
    · have only : ∀ byte ∈ cStr key, byte = slash := by
        push Not at named
        exact named
      simp [openKey, regHiveKey_backslashes 0 [] empty only, empty, named]

/-! ## The loops -/

variable {server}

theorem length_of_collect {σ α : Type} {turn : σ → Nat → Option (σ × α)} {vars final : σ}
    {number : Nat} {entries : List α}
    (collected : collect turn vars number = some (final, entries)) :
    entries.length = number := by
  induction number generalizing final entries with
  | zero =>
      obtain ⟨-, rfl⟩ := Prod.mk.inj (Option.some.inj collected)
      rfl
  | succ number ih =>
      simp only [collect, Option.bind_eq_bind, Option.bind_eq_some_iff] at collected
      obtain ⟨⟨_, front⟩, before, ⟨_, _⟩, _, last⟩ := collected
      obtain ⟨-, rfl⟩ := Prod.mk.inj (Option.some.inj last)
      simp [ih before]

/-- Where every turn gives the entry for its index, so does the loop. -/
theorem collect_of_turns {σ α : Type} {turn : σ → Nat → Option (σ × α)}
    {answered : Nat → Option α} {number : Nat} (vars : σ)
    (turns : ∀ i < number, ∀ vars, ∃ next entry,
      turn vars i = some (next, entry) ∧ answered i = some entry) :
    ∃ final entries, collect turn vars number = some (final, entries) ∧
      BuiltFrom answered entries := by
  induction number with
  | zero => exact ⟨vars, [], rfl, by simp [BuiltFrom]⟩
  | succ number ih =>
      have earlier := ih fun i below => turns i (Nat.lt_succ_of_lt below)
      obtain ⟨middle, front, collected, built⟩ := earlier
      obtain ⟨final, entry, turned, answer⟩ := turns number (Nat.lt_succ_self number) middle
      refine ⟨final, front ++ [entry], by simp [collect, collected, turned], ?_⟩
      intro i other at_
      rw [List.getElem?_append] at at_
      split at at_
      next => exact built i other at_
      next behind =>
        have length := length_of_collect collected
        rw [List.getElem?_singleton] at at_
        split at at_
        next here =>
          have same : i = number := by omega
          rw [same, answer, at_]
        next => contradiction

/-- Where the entries are those of the answers, every index has an answer. -/
theorem answered_of_builtFrom {σ α : Type} {turn : σ → Nat → Option (σ × α)} {vars final : σ}
    {answered : Nat → Option α} {number : Nat} {entries : List α}
    (collected : collect turn vars number = some (final, entries))
    (built : BuiltFrom answered entries) : ∀ i < number, (answered i).isSome := by
  intro i below
  have inside : i < entries.length := by rwa [length_of_collect collected]
  rw [built i entries[i] (List.getElem?_eq_getElem inside)]
  rfl

/-- The calls for the subkeys succeed where they give entries. -/
theorem subKeysAnswered_iff :
    SubKeysAnswered server ↔ ∀ i < server.numSubKeys, (answeredSubKey server i).isSome := by
  refine forall₂_congr fun i _ => ?_
  rw [Answer.IsOk, answeredSubKey]
  cases server.subKeyByIndex i with
  | ok data => simp
  | failed werror written => simp

theorem valuesAnswered_iff :
    ValuesAnswered server ↔ ∀ i < server.numValues, (answeredValue server i).isSome := by
  refine forall₂_congr fun i _ => ?_
  rw [answeredValue]
  cases server.valueByIndex i with
  | ok data => simp
  | failed werror written => simp

/-- The loop over the subkeys reports the answers when all calls succeed. -/
theorem collect_subKeys (answered : SubKeysAnswered server) (vars : SubKeyVars) :
    ∃ final subKeys, collect (subKeyTurn server) vars server.numSubKeys = some (final, subKeys) ∧
      BuiltFrom (answeredSubKey server) subKeys := by
  refine collect_of_turns vars fun i below vars => ?_
  obtain ⟨data, ok⟩ := answered i below
  simp [subKeyTurn, answeredSubKey, ok]

theorem collect_values (answered : ValuesAnswered server) :
    ∃ final values, collect (valueTurn server) () server.numValues = some (final, values) ∧
      BuiltFrom (answeredValue server) values := by
  refine collect_of_turns () fun i below vars => ?_
  obtain ⟨data, ok, defined⟩ := answered i below
  obtain ⟨⟨value, reads⟩, normalized⟩ := Option.isSome_iff_exists.mp defined
  simp [valueTurn, keyGetValueByIndex, answeredValue, ok, normalized]

/-! ## What the enumerations report -/

theorem enumerateKey_of_failed {key : ByteString} {status : WResult}
    (opened : openKey server key = some status)
    (failed : status.ok = true → server.getInfo ≠ 0) :
    ∃ error, enumerateKey server key = some (error, ⟨[], []⟩) ∧ error.ok = false := by
  cases ok : status.ok with
  | false => exact ⟨status, by simp [enumerateKey, opened, ok], ok⟩
  | true =>
      have info := failed ok
      exact ⟨werrorResult server.getInfo, by simp [enumerateKey, opened, ok, werrorResult, info],
        by simp [werrorResult, info]⟩

theorem enumerateKeyValues_of_failed {key : ByteString} {status : WResult}
    (opened : openKey server key = some status)
    (failed : status.ok = true → server.getInfo ≠ 0) :
    ∃ error, enumerateKeyValues server key = some (error, []) ∧ error.ok = false := by
  cases ok : status.ok with
  | false => exact ⟨status, by simp [enumerateKeyValues, opened, ok], ok⟩
  | true =>
      have info := failed ok
      exact ⟨werrorResult server.getInfo,
        by simp [enumerateKeyValues, opened, ok, werrorResult, info], by simp [werrorResult, info]⟩

/-- `enumerate_key` on a key that has been opened and described. -/
theorem enumerateKey_of_described {key : ByteString} {status : WResult}
    (opened : openKey server key = some status) (ok : status.ok = true)
    (info : server.getInfo = 0) :
    enumerateKey server key = do
      let (_, subKeys) ← collect (subKeyTurn server) ⟨none, none, none⟩ server.numSubKeys
      let (_, values) ← collect (valueTurn server) () server.numValues
      return (⟨true, 0⟩, ⟨subKeys, values⟩) := by
  simp [enumerateKey, opened, ok, werrorResult, info]

theorem enumerateKeyValues_of_described {key : ByteString} {status : WResult}
    (opened : openKey server key = some status) (ok : status.ok = true)
    (info : server.getInfo = 0) :
    enumerateKeyValues server key = do
      let (_, values) ← collect (valueTurn server) () server.numValues
      return (⟨true, 0⟩, values) := by
  simp [enumerateKeyValues, opened, ok, werrorResult, info]

/-- A key is enumerable exactly when it is opened, and described only if it is answered. -/
theorem enumerable_iff {key : ByteString} {answered : Prop} :
    Enumerable server key answered ↔
      ∃ status, openKey server key = some status ∧
        (status.ok = true → server.getInfo = 0 → answered) := by
  rw [Enumerable, ← openKey_isSome_iff server]
  cases openKey server key with
  | none => simp
  | some status => simp

/-- `enumerate_key` reports the answers exactly when all calls for an index succeed. -/
theorem keyReported_iff (key : ByteString) :
    KeyReported server key ↔
      Enumerable server key (SubKeysAnswered server ∧ ValuesAnswered server) := by
  rw [enumerable_iff]
  constructor
  · intro ⟨result, ek, enumerated, reported⟩
    cases opened : openKey server key with
    | none => simp [enumerateKey, opened] at enumerated
    | some status =>
        refine ⟨status, rfl, fun ok info => ?_⟩
        rw [enumerateKey_of_described opened ok info] at enumerated
        simp only [Option.bind_eq_bind, Option.bind_eq_some_iff] at enumerated
        obtain ⟨⟨_, subKeys⟩, keysCollected, ⟨_, values⟩, valuesCollected, last⟩ := enumerated
        obtain ⟨rfl, rfl⟩ := Prod.mk.inj (Option.some.inj last)
        have built := reported.resolve_left (by simp)
        rw [subKeysAnswered_iff, valuesAnswered_iff]
        exact ⟨answered_of_builtFrom keysCollected built.1,
          answered_of_builtFrom valuesCollected built.2⟩
  · intro ⟨status, opened, answered⟩
    by_cases described : status.ok = true ∧ server.getInfo = 0
    · have all := answered described.1 described.2
      obtain ⟨_, subKeys, keysCollected, keysBuilt⟩ := collect_subKeys all.1 ⟨none, none, none⟩
      obtain ⟨_, values, valuesCollected, valuesBuilt⟩ := collect_values all.2
      refine ⟨⟨true, 0⟩, ⟨subKeys, values⟩, ?_, .inr ⟨keysBuilt, valuesBuilt⟩⟩
      rw [enumerateKey_of_described opened described.1 described.2]
      simp [keysCollected, valuesCollected]
    · have failed := enumerateKey_of_failed opened fun ok info => described ⟨ok, info⟩
      obtain ⟨error, enumerated, notOk⟩ := failed
      exact ⟨error, _, enumerated, .inl notOk⟩

/-- `enumerate_key_values` reports the answers exactly when all calls for a value succeed. -/
theorem keyValuesReported_iff (key : ByteString) :
    KeyValuesReported server key ↔ Enumerable server key (ValuesAnswered server) := by
  rw [enumerable_iff]
  constructor
  · intro ⟨result, values, enumerated, reported⟩
    cases opened : openKey server key with
    | none => simp [enumerateKeyValues, opened] at enumerated
    | some status =>
        refine ⟨status, rfl, fun ok info => ?_⟩
        rw [enumerateKeyValues_of_described opened ok info] at enumerated
        simp only [Option.bind_eq_bind, Option.bind_eq_some_iff] at enumerated
        obtain ⟨⟨_, values⟩, valuesCollected, last⟩ := enumerated
        obtain ⟨rfl, rfl⟩ := Prod.mk.inj (Option.some.inj last)
        rw [valuesAnswered_iff]
        exact answered_of_builtFrom valuesCollected (reported.resolve_left (by simp))
  · intro ⟨status, opened, answered⟩
    by_cases described : status.ok = true ∧ server.getInfo = 0
    · obtain ⟨_, values, valuesCollected, valuesBuilt⟩ :=
        collect_values (answered described.1 described.2)
      refine ⟨⟨true, 0⟩, values, ?_, .inr valuesBuilt⟩
      rw [enumerateKeyValues_of_described opened described.1 described.2]
      simp [valuesCollected]
    · have failed := enumerateKeyValues_of_failed opened fun ok info => described ⟨ok, info⟩
      obtain ⟨error, enumerated, notOk⟩ := failed
      exact ⟨error, _, enumerated, .inl notOk⟩

/-- When the enumerations report what the server has answered. -/
theorem enumerations_reported_iff (server : Server) (key : ByteString) :
    (KeyReported server key ↔
        Enumerable server key (SubKeysAnswered server ∧ ValuesAnswered server)) ∧
      (KeyValuesReported server key ↔ Enumerable server key (ValuesAnswered server)) :=
  ⟨keyReported_iff key, keyValuesReported_iff key⟩

/-- A key with two subkeys, the second of which has been removed since its info was read. -/
def changingServer : Server where
  getPredefinedKey _ := 0
  openKey _ _ := 0
  getInfo := 0
  numSubKeys := 2
  numValues := 0
  subKeyByIndex i := if i = 0 then .ok ⟨text "first", none, 0⟩ else .failed 259 none
  valueByIndex _ := .failed 259 none
  ctime _ := text "Thu Jan  1 00:00:00 1970\n"
  regValDataString _ _ := none

/-- The first subkey is reported twice. -/
theorem changingServer_repeats :
    ((enumerateKey changingServer (text "HKLM\\a")).map fun (_, ek) => ek.subKeys.map SubKey.name) =
        some [text "first", text "first"] ∧
      ¬KeyReported changingServer (text "HKLM\\a") := by
  refine ⟨by decide, fun reported => ?_⟩
  have enumerable := (keyReported_iff _).mp reported
  have opened : openKey changingServer (text "HKLM\\a") = some ⟨true, 0⟩ := by decide
  obtain ⟨data, second⟩ := (enumerable.2 _ opened rfl rfl).1 1 (by decide)
  simp [changingServer] at second

end Cdcm.Backend.Registry
