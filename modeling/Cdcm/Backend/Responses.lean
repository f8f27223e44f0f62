import Cdcm.Backend.Actions
import Cdcm.Backend.Results

/-!
# Status and value of a result

Each exit of an action fills in the status of its result and the value together, by one
call.  Which calls keep the two consistent, which exits make them, and what follows for
the results that a worker sends.
-/

namespace Cdcm.Backend

open Json Protocol SessionsCache Zmq Machine

/-- The text of an error. -/
def IsErrorText (value : Value) : Prop := ∃ message, value = .string (text "Error: " ++ message)

/-- The status has been assigned; its group is `OK` exactly when the result holds the data
of the operation, and an error exactly when it holds the text of one. -/
structure Consistent (data : Option Value) (res : ResultMsg) : Prop where
  assigned : Assigned res.respStatus
  ok : res.respStatus.codeGroup = some RespGroupCode.ok.toNat ↔
    ∃ value, data = some value ∧ res.result = some value
  error : (∃ group, group ≠ .ok ∧ res.respStatus.codeGroup = some (RespGroupCode.toNat group)) ↔
    ∃ value, res.result = some value ∧ IsErrorText value

/-- A call that sets the status. -/
def Response.Assigns : Response → Prop
  | .success _ | .error .. | .uniqueError .. => True
  | .res _ => False

/-- A call that sets the status as it sets the value. -/
def Response.Sound : Response → Prop
  | .success data => ¬ IsErrorText data
  | .error cdcmError | .uniqueError cdcmError .. => cdcmError ≠ .ok
  | .res _ => False

theorem Response.Sound.assigns {response : Response} (sound : response.Sound) :
    response.Assigns := by
  cases response with
  | success | error | uniqueError => trivial
  | res => exact sound

theorem toNat_injective : Function.Injective RespGroupCode.toNat := by
  intro first second same
  cases first <;> cases second <;> first | rfl | contradiction

/-- The entries of the error table: each but `OK` is of an error group. -/
theorem group_eq_ok_iff {error : CdcmError} {entry : RespGroupCode × Nat × ByteString}
    (mapped : cdcmErrorMapping error = some entry) : entry.1 = .ok ↔ error = .ok := by
  cases error with
  | parseFileFailed => contradiction
  | _ =>
      obtain rfl := Option.some.inj mapped
      decide

/-- A result with a status of some group and a value. -/
theorem consistent_iff {data : Option Value} {id description : ByteString} {group : RespGroupCode}
    {code : Nat} {value : Value} (described : groupCodeDescription group = some description) :
    Consistent data ⟨id, ⟨some group.toNat, description, some code⟩, some value⟩ ↔
      (group = .ok ↔ data = some value) ∧ (group ≠ .ok ↔ IsErrorText value) := by
  have isGroup : ∀ other, some group.toNat = some (RespGroupCode.toNat other) ↔ group = other := by
    intro other
    rw [Option.some.injEq]
    exact toNat_injective.eq_iff
  constructor
  · intro consistent
    have ok := consistent.ok
    have error := consistent.error
    simp only [isGroup, Option.some.injEq] at ok error
    constructor
    · rw [ok]
      simp
    · simpa using error
  · intro ⟨ok, error⟩
    refine ⟨⟨group, code, rfl, described⟩, ?_, ?_⟩
    · simp only [isGroup, Option.some.injEq]
      rw [ok]
      simp
    · simp only [isGroup, Option.some.injEq]
      simpa using error

/-- What a call of a setter leaves. -/
theorem fill_cases {response : Response} {res filled : ResultMsg}
    (fills : response.fill res = some filled) :
    (∃ data, response = .res data ∧ filled = { res with result := some data }) ∨
      ∃ error group code message description value,
        cdcmErrorMapping error = some (group, message) ∧
          groupCodeDescription group = some description ∧
          filled = ⟨res.id, ⟨some group.toNat, description, some code⟩, some value⟩ ∧
          (response = .success value ∧ error = .ok ∨
            response.data = none ∧ (response.Sound ↔ error ≠ .ok) ∧ response.Assigns ∧
              IsErrorText value) := by
  cases response with
  | res data => exact .inl ⟨data, rfl, (Option.some.inj fills).symm⟩
  | success data =>
      obtain rfl := Option.some.inj fills
      exact .inr ⟨.ok, .ok, 101, _, _, data, rfl, rfl, rfl, .inl ⟨rfl, rfl⟩⟩
  | error cdcmError =>
      simp only [Response.fill, ResultMsg.setResponseForError, RespStatus.setForCdcmError,
        Option.bind_eq_bind, Option.bind_eq_some_iff, Option.pure_def, Option.some.injEq,
        Prod.exists] at fills
      obtain ⟨_, ⟨group, code, _, mapped, description, described, rfl⟩, _, _, message, -, rfl⟩ :=
        fills
      exact .inr ⟨cdcmError, group, code, _, description, _, mapped, described, rfl,
        .inr ⟨rfl, Iff.rfl, trivial, message, rfl⟩⟩
  | uniqueError cdcmError errorCode errMsg =>
      simp only [Response.fill, ResultMsg.setResponseForErrorWithUniqueCodeOrMsg,
        Option.bind_eq_bind, Option.bind_eq_some_iff, Option.pure_def, Option.some.injEq,
        Prod.exists] at fills
      obtain ⟨group, code, message, mapped, description, described, rfl⟩ := fills
      exact .inr ⟨cdcmError, group, _, _, description, _, mapped, described, rfl,
        .inr ⟨rfl, Iff.rfl, trivial, _, rfl⟩⟩

/-- Only `res` leaves a status unassigned. -/
theorem fill_assigns {response : Response} {res filled : ResultMsg} (assigns : response.Assigns)
    (fills : response.fill res = some filled) : Assigned filled.respStatus := by
  cases fill_cases fills with
  | inl bare =>
      obtain ⟨data, rfl, -⟩ := bare
      exact assigns.elim
  | inr sets =>
      obtain ⟨error, group, code, message, description, value, -, described, rfl, -⟩ := sets
      exact ⟨group, code, rfl, described⟩

/-- On a fresh result, the sound calls are those that keep status and value consistent. -/
theorem fill_consistent_iff {response : Response} {id : ByteString} {filled : ResultMsg}
    (fills : response.fill { ResultMsg.new with id := id } = some filled) :
    Consistent response.data filled ↔ response.Sound := by
  cases fill_cases fills with
  | inl bare =>
      obtain ⟨data, rfl, rfl⟩ := bare
      constructor
      · intro consistent
        obtain ⟨group, code, unset, -⟩ := consistent.assigned
        have impossible : (none : Option Nat) = some group.toNat :=
          congrArg RespStatus.codeGroup unset
        contradiction
      · exact False.elim
  | inr sets =>
      obtain ⟨error, group, code, message, description, value, mapped, described, rfl, kind⟩ :=
        sets
      have isOk := group_eq_ok_iff mapped
      dsimp only at isOk
      rw [consistent_iff described]
      cases kind with
      | inl success =>
          obtain ⟨rfl, rfl⟩ := success
          have ok := isOk.mpr rfl
          simp [ok, Response.data, Response.Sound]
      | inr failure =>
          obtain ⟨noData, sound, -, isText⟩ := failure
          have isError : error ≠ .ok ↔ group ≠ .ok := not_congr isOk.symm
          rw [noData, sound, isError]
          simp [isText]

/-! ## The exits of the actions -/

theorem not_isErrorText {value : ByteString} (noColon : 58 ∉ value) :
    ¬ IsErrorText (.string value) := by
  intro ⟨message, same⟩
  apply noColon
  rw [Value.string.inj same]
  exact List.mem_append_left message (by decide)

theorem not_isErrorText_array (elements : List Value) : ¬ IsErrorText (.array elements) :=
  fun ⟨_, same⟩ => Value.noConfusion same

theorem not_isErrorText_object (members : Object) : ¬ IsErrorText (.object members) :=
  fun ⟨_, same⟩ => Value.noConfusion same

theorem base64Letter_ne_colon (bits : Nat) : base64Letter bits ≠ 58 := by
  have small : bits % 64 < base64Alphabet.length := Nat.mod_lt bits (by decide)
  intro isColon
  have member : (58 : Byte) ∈ base64Alphabet := by
    rw [← isColon, base64Letter, List.getD_eq_getElem _ _ small]
    exact List.getElem_mem small
  exact absurd member (by decide +kernel)

/-- A colon is not one of the letters of `base64_encode`. -/
theorem colon_not_mem_base64 (bytes : ByteString) : 58 ∉ base64Encode bytes := by
  have letter := base64Letter_ne_colon
  fun_induction base64Encode bytes with
  | case1 => simp
  | case2 | case3 => simp [Ne.symm (letter _)]
  | case4 _ _ _ _ _ ih => simp [Ne.symm (letter _), ih]

section Exits

variable {asset : Asset} {sess : Option Session} {exit : Exit}

theorem generalError_sound (werror : Nat) (message : ByteString) :
    (generalError werror message).Sound := by
  change CdcmError.generalErrorWithAsset ≠ .ok
  decide

theorem failed_sound {error : CdcmError} (isError : error ≠ .ok) :
    (Exit.failed error).response.Sound := isError

/-- An answer `True` or `False`. -/
theorem truth_sound (truth : Bool) :
    (Response.success (.string (text (if truth then "True" else "False")))).Sound := by
  apply not_isErrorText
  cases truth <;> decide

theorem withRegistry_sound (sound : exit.response.Sound) :
    (withRegistry asset exit).response.Sound := by
  unfold withRegistry
  split
  · dsimp only
    split <;> exact generalError_sound _ _
  · exact sound

theorem withConnection_sound (sound : exit.response.Sound) :
    (withConnection asset exit).response.Sound := by
  unfold withConnection
  split
  · exact generalError_sound _ _
  · exact sound

theorem securityDescriptor_sound : (securityDescriptor asset).response.Sound := by
  unfold securityDescriptor
  split
  · exact not_isErrorText_object _
  · exact generalError_sound _ _

theorem failedOpen_sound : (failedOpen asset).response.Sound := generalError_sound _ _

theorem ntfsPermissions_sound (path : ByteString) :
    (ntfsPermissions asset path).response.Sound := by
  unfold ntfsPermissions
  split
  · exact failed_sound (by decide)
  split
  · exact failed_sound (by decide)
  · exact withConnection_sound securityDescriptor_sound

end Exits

/-- `Enumerate_Registry_Values_Action` has listed the values. -/
def ListsValues (asset : Asset) (sess : Option Session) (msg : PluginMsg) (plugin : Plugin) :
    Prop :=
  plugin = .enumerateRegistryValues ∧ hasSession sess = true ∧
    asset.connect.ok = true ∧ asset.enumerated.ok = true ∧
    ∃ id key, msg = .enumerateRegistryValues id key ∧ key ≠ []

/-- `Query_Value_Action` has read a value that begins like the text of an error. -/
def ReadsErrorText (asset : Asset) (sess : Option Session) (msg : PluginMsg) (plugin : Plugin) :
    Prop :=
  plugin = .queryValue ∧ hasSession sess = true ∧ asset.connect.ok = true ∧
    asset.openKey.ok = true ∧ asset.value.1.ok = true ∧
    IsErrorText (.string asset.value.2.value) ∧
    ∃ id key value, msg = .queryValue id key value ∧ key ≠ []

section Plugins

variable {asset : Asset} {sess : Option Session} {msg : PluginMsg}

theorem actEnumerateKey_sound : (actEnumerateKey asset sess msg).response.Sound := by
  unfold actEnumerateKey
  split
  · exact failed_sound (by decide)
  split
  · split
    · exact failed_sound (by decide)
    · apply withRegistry_sound
      split
      · exact not_isErrorText_object _
      · exact generalError_sound _ _
  · exact failed_sound (by decide)

theorem actGetRegistryPermissions_sound :
    (actGetRegistryPermissions asset sess msg).response.Sound := by
  unfold actGetRegistryPermissions
  split
  · exact failed_sound (by decide)
  split
  · split
    · exact failed_sound (by decide)
    · apply withRegistry_sound
      split
      · exact failed_sound (by decide)
      · exact securityDescriptor_sound
  · exact failed_sound (by decide)

theorem actKeyExists_sound : (actKeyExists asset sess msg).response.Sound := by
  unfold actKeyExists
  split
  · exact failed_sound (by decide)
  split
  · split
    · exact failed_sound (by decide)
    · apply withRegistry_sound
      split
      · split
        · exact truth_sound false
        · exact generalError_sound _ _
      · exact truth_sound true
  · exact failed_sound (by decide)

theorem actValueExists_sound : (actValueExists asset sess msg).response.Sound := by
  unfold actValueExists
  split
  · exact failed_sound (by decide)
  split
  · split
    · exact failed_sound (by decide)
    · apply withRegistry_sound
      split
      · split
        · exact truth_sound false
        · exact generalError_sound _ _
      split
      · split
        · exact truth_sound false
        · exact generalError_sound _ _
      · exact truth_sound true
  · exact failed_sound (by decide)

theorem actSmbFileExists_sound : (actSmbFileExists asset sess msg).response.Sound := by
  unfold actSmbFileExists
  split
  · exact failed_sound (by decide)
  split
  · split
    · exact failed_sound (by decide)
    split
    · split
      · exact truth_sound false
      · exact failedOpen_sound
    · exact truth_sound true
  · exact failed_sound (by decide)

theorem actSmbGetFileInfo_sound : (actSmbGetFileInfo asset sess msg).response.Sound := by
  unfold actSmbGetFileInfo
  split
  · exact failed_sound (by decide)
  split
  · split
    · exact failed_sound (by decide)
    split
    · exact failedOpen_sound
    · exact not_isErrorText_object _
  · exact failed_sound (by decide)

theorem actSmbListDir_sound : (actSmbListDir asset sess msg).response.Sound := by
  unfold actSmbListDir
  split
  · exact failed_sound (by decide)
  split
  · split
    · exact failed_sound (by decide)
    split
    · exact generalError_sound _ _
    · exact not_isErrorText_array _
  · exact failed_sound (by decide)

theorem readSmbFile_sound {offset size : Nat} {exit : Exit}
    (reads : readSmbFile asset offset size = some exit) : exit.response.Sound := by
  unfold readSmbFile at reads
  split at reads
  · obtain rfl := Option.some.inj reads
    exact failedOpen_sound
  dsimp only at reads
  generalize (if size = 0 then (asset.fileSize + 2 ^ 64 - offset) % 2 ^ 64 else size) = length
    at reads
  split at reads
  · contradiction
  split at reads
  · obtain rfl := Option.some.inj reads
    exact failed_sound (by decide)
  · obtain rfl := Option.some.inj reads
    exact not_isErrorText (colon_not_mem_base64 _)

theorem actSmbReadFile_sound {exit : Exit} (acted : actSmbReadFile asset sess msg = some exit) :
    exit.response.Sound := by
  have failed : ∀ error, error ≠ CdcmError.ok → some (Exit.failed error) = some exit →
      exit.response.Sound := by
    intro error isError same
    obtain rfl := Option.some.inj same
    exact failed_sound isError
  unfold actSmbReadFile at acted
  split at acted
  · exact failed _ (by decide) acted
  split at acted
  · split at acted
    · exact failed _ (by decide) acted
    obtain ⟨offset, -, acted⟩ := Option.bind_eq_some_iff.mp acted
    split at acted
    · exact failed _ (by decide) acted
    obtain ⟨size, -, acted⟩ := Option.bind_eq_some_iff.mp acted
    split at acted
    · exact failed _ (by decide) acted
    · exact readSmbFile_sound acted
  · exact failed _ (by decide) acted

theorem actGetNtfsFilePermissions_sound :
    (actGetNtfsFilePermissions asset sess msg).response.Sound := by
  unfold actGetNtfsFilePermissions
  split
  · exact failed_sound (by decide)
  split
  · exact ntfsPermissions_sound _
  · exact failed_sound (by decide)

theorem actGetNtfsFolderPermissions_sound :
    (actGetNtfsFolderPermissions asset sess msg).response.Sound := by
  unfold actGetNtfsFolderPermissions
  split
  · exact failed_sound (by decide)
  split
  · exact ntfsPermissions_sound _
  · exact failed_sound (by decide)

theorem actGetSharePermissions_sound :
    (actGetSharePermissions asset sess msg).response.Sound := by
  unfold actGetSharePermissions
  split
  · exact failed_sound (by decide)
  split
  · split
    · exact failed_sound (by decide)
    · exact withConnection_sound securityDescriptor_sound
  · exact failed_sound (by decide)

theorem actEnumerateShares_sound : (actEnumerateShares asset sess msg).response.Sound := by
  unfold actEnumerateShares
  split
  · exact failed_sound (by decide)
  split
  · apply withConnection_sound
    split
    · exact not_isErrorText_array _
    · exact generalError_sound _ _
  · exact failed_sound (by decide)

/-- The one action that sets its value alone, where it has listed the values. -/
theorem actEnumerateRegistryValues_cases :
    ListsValues asset sess msg .enumerateRegistryValues ∧
        ¬ (actEnumerateRegistryValues asset sess msg).response.Assigns ∨
      ¬ ListsValues asset sess msg .enumerateRegistryValues ∧
        (actEnumerateRegistryValues asset sess msg).response.Sound := by
  unfold actEnumerateRegistryValues ListsValues
  by_cases session : hasSession sess = true
  · cases msg with
    | enumerateRegistryValues id key =>
        by_cases empty : key = []
        · exact .inr ⟨by simp [empty], by simp [session, empty]; exact failed_sound (by decide)⟩
        by_cases connects : asset.connect.ok = true
        · by_cases enumerates : asset.enumerated.ok = true
          · exact .inl ⟨⟨rfl, session, connects, enumerates, id, key, rfl, empty⟩,
              by simp [session, empty, withRegistry, connects, enumerates, Response.Assigns]⟩
          · refine .inr ⟨by simp [enumerates], ?_⟩
            simp only [session, Bool.not_true, Bool.false_eq_true, if_false, empty]
            apply withRegistry_sound
            rw [if_neg enumerates]
            exact generalError_sound _ _
        · refine .inr ⟨by simp [connects], ?_⟩
          simp only [session, Bool.not_true, Bool.false_eq_true, if_false, empty, withRegistry,
            connects, Bool.not_false, if_true]
          split <;> exact generalError_sound _ _
    | _ => exact .inr ⟨by simp, by simp [session]; exact failed_sound (by decide)⟩
  · exact .inr ⟨by simp [session], by simp [session]; exact failed_sound (by decide)⟩

/-- The one action whose data may be any text, where it has read a value. -/
theorem actQueryValue_cases :
    ReadsErrorText asset sess msg .queryValue ∧
        (actQueryValue asset sess msg).response = .success (.string asset.value.2.value) ∨
      ¬ ReadsErrorText asset sess msg .queryValue ∧
        (actQueryValue asset sess msg).response.Sound := by
  unfold actQueryValue ReadsErrorText
  by_cases session : hasSession sess = true
  · cases msg with
    | queryValue id key value =>
        by_cases empty : key = []
        · exact .inr ⟨by simp [empty], by simp [session, empty]; exact failed_sound (by decide)⟩
        by_cases connects : asset.connect.ok = true
        · by_cases opens : asset.openKey.ok = true
          · by_cases reads : asset.value.1.ok = true
            · by_cases nothing : asset.value.2.value = []
              · refine .inr ⟨?_, by
                  simp [session, empty, withRegistry, connects, opens, reads, nothing,
                    Response.Sound]⟩
                rw [nothing]
                have noText := @not_isErrorText [] (by simp)
                simp [noText]
              · by_cases isText : IsErrorText (.string asset.value.2.value)
                · refine .inl ⟨⟨rfl, session, connects, opens, reads, isText, id, key, value, rfl,
                    empty⟩, ?_⟩
                  simp [session, empty, withRegistry, connects, opens, reads, nothing]
                · refine .inr ⟨by simp [isText], ?_⟩
                  simp [session, empty, withRegistry, connects, opens, reads, nothing,
                    Response.Sound, isText]
            · refine .inr ⟨by simp [reads], ?_⟩
              simp only [session, Bool.not_true, Bool.false_eq_true, if_false, empty, opens, reads,
                Bool.not_false, if_true]
              exact withRegistry_sound (failed_sound (by decide))
          · refine .inr ⟨by simp [opens], ?_⟩
            simp only [session, Bool.not_true, Bool.false_eq_true, if_false, empty, opens,
              Bool.not_false, if_true]
            exact withRegistry_sound (generalError_sound _ _)
        · refine .inr ⟨by simp [connects], ?_⟩
          simp only [session, Bool.not_true, Bool.false_eq_true, if_false, empty, withRegistry,
            connects, Bool.not_false, if_true]
          split <;> exact generalError_sound _ _
    | _ => exact .inr ⟨by simp, by simp [session]; exact failed_sound (by decide)⟩
  · exact .inr ⟨by simp [session], by simp [session]; exact failed_sound (by decide)⟩

/-- The calls whose exits are not sound have succeeded. -/
theorem succeeded_of_not_sound {plugin : Plugin} {exit : Exit}
    (acted : plugin.act asset sess msg = some exit)
    (unsound : ListsValues asset sess msg plugin ∨ ReadsErrorText asset sess msg plugin) :
    exit.status = .succeeded := by
  cases unsound with
  | inl lists =>
      obtain ⟨rfl, session, connects, enumerates, id, key, rfl, nonempty⟩ := lists
      obtain rfl := Option.some.inj acted
      simp [actEnumerateRegistryValues, session, nonempty, withRegistry, connects, enumerates]
  | inr queries =>
      obtain ⟨rfl, session, connects, opens, reads, isText, id, key, value, rfl, nonempty⟩ :=
        queries
      obtain rfl := Option.some.inj acted
      simp only [actQueryValue, session, Bool.not_true, Bool.false_eq_true, if_false, nonempty,
        withRegistry, connects, opens, reads]
      split <;> rfl

/-- The exits that are not sound. -/
theorem act_sound_iff {plugin : Plugin} {exit : Exit}
    (acted : plugin.act asset sess msg = some exit) :
    exit.response.Sound ↔
      ¬ ListsValues asset sess msg plugin ∧ ¬ ReadsErrorText asset sess msg plugin := by
  have always : plugin ≠ .enumerateRegistryValues → plugin ≠ .queryValue →
      exit.response.Sound → (exit.response.Sound ↔
        ¬ ListsValues asset sess msg plugin ∧ ¬ ReadsErrorText asset sess msg plugin) := by
    intro notLists notQueries sound
    exact ⟨fun _ => ⟨fun lists => notLists lists.1, fun queries => notQueries queries.1⟩,
      fun _ => sound⟩
  cases plugin with
  | enumerateRegistryValues =>
      obtain rfl := Option.some.inj acted
      cases @actEnumerateRegistryValues_cases asset sess msg with
      | inl lists =>
          exact ⟨fun sound => absurd sound.assigns lists.2, fun both => absurd lists.1 both.1⟩
      | inr sound => exact ⟨fun _ => ⟨sound.1, fun queries => nomatch queries.1⟩, fun _ => sound.2⟩
  | queryValue =>
      obtain rfl := Option.some.inj acted
      cases @actQueryValue_cases asset sess msg with
      | inl queries =>
          have isText : ¬ (actQueryValue asset sess msg).response.Sound := by
            rw [queries.2]
            exact not_not_intro queries.1.2.2.2.2.2.1
          exact ⟨fun sound => absurd sound isText, fun both => absurd queries.1 both.2⟩
      | inr sound => exact ⟨fun _ => ⟨(fun lists => nomatch lists.1), sound.1⟩, fun _ => sound.2⟩
  | smbReadFile => exact always (by decide) (by decide) (actSmbReadFile_sound acted)
  | enumerateKey =>
      obtain rfl := Option.some.inj acted
      exact always (by decide) (by decide) actEnumerateKey_sound
  | getRegistryPermissions =>
      obtain rfl := Option.some.inj acted
      exact always (by decide) (by decide) actGetRegistryPermissions_sound
  | keyExists =>
      obtain rfl := Option.some.inj acted
      exact always (by decide) (by decide) actKeyExists_sound
  | valueExists =>
      obtain rfl := Option.some.inj acted
      exact always (by decide) (by decide) actValueExists_sound
  | smbFileExists =>
      obtain rfl := Option.some.inj acted
      exact always (by decide) (by decide) actSmbFileExists_sound
  | smbGetFileInfo =>
      obtain rfl := Option.some.inj acted
      exact always (by decide) (by decide) actSmbGetFileInfo_sound
  | smbListDir =>
      obtain rfl := Option.some.inj acted
      exact always (by decide) (by decide) actSmbListDir_sound
  | getNtfsFilePermissions =>
      obtain rfl := Option.some.inj acted
      exact always (by decide) (by decide) actGetNtfsFilePermissions_sound
  | getNtfsFolderPermissions =>
      obtain rfl := Option.some.inj acted
      exact always (by decide) (by decide) actGetNtfsFolderPermissions_sound
  | getSharePermissions =>
      obtain rfl := Option.some.inj acted
      exact always (by decide) (by decide) actGetSharePermissions_sound
  | enumerateShares =>
      obtain rfl := Option.some.inj acted
      exact always (by decide) (by decide) actEnumerateShares_sound

/-- Every exit sets a status, unless values have been listed. -/
theorem act_assigns {plugin : Plugin} {exit : Exit}
    (acted : plugin.act asset sess msg = some exit)
    (notListed : ¬ ListsValues asset sess msg plugin) : exit.response.Assigns := by
  by_cases queries : ReadsErrorText asset sess msg plugin
  · obtain rfl := queries.1
    obtain rfl := Option.some.inj acted
    cases @actQueryValue_cases asset sess msg with
    | inl reads =>
        rw [reads.2]
        trivial
    | inr sound => exact sound.2.assigns
  · exact ((act_sound_iff acted).mpr ⟨notListed, queries⟩).assigns

end Plugins

/-! ## The results of a worker -/

/-- How a call of `act` ends. -/
def Plugin.outcome (plugin : Plugin) (asset : Asset) (sess : Option Session) (msg : PluginMsg) :
    ActOutcome :=
  match plugin.act asset sess msg with
  | some exit => exit.outcome msg.id
  | none => .throws

/-- Where an action is called, its outcome is that of a plugin for its message, with a
condition on the call, or an exception. -/
def FromPlugin (env : WorkerEnvironment)
    (condition : Asset → Option Session → PluginMsg → Plugin → Prop)
    (action : Value) (outcome : ActOutcome) : Prop :=
  ∀ id, readId env action = .ok (some id) → outcome = .throws ∨
    ∃ (plugin : Plugin) (asset : Asset) (sess : Option Session) (msg : PluginMsg),
      plugin.getMessage action = .ok msg ∧ outcome = plugin.outcome asset sess msg ∧
        condition asset sess msg plugin

/-- An outcome with a status was filled in by the call of the exit. -/
theorem outcome_eq_returns {plugin : Plugin} {asset : Asset} {sess : Option Session}
    {msg : PluginMsg} {status : ActionStatus} {respStatus : RespStatus} {result : Option Value}
    (returns : plugin.outcome asset sess msg = .returns status respStatus result) :
    ∃ exit, plugin.act asset sess msg = some exit ∧ exit.status = status ∧
      ∃ filled, exit.response.fill { ResultMsg.new with id := msg.id } = some filled ∧
        filled.respStatus = respStatus ∧ filled.result = result := by
  unfold Plugin.outcome at returns
  split at returns
  next exit acted =>
    unfold Exit.outcome at returns
    split at returns
    next filled fills =>
      obtain ⟨rfl, rfl, rfl⟩ := ActOutcome.returns.inj returns
      exact ⟨exit, acted, rfl, filled, fills, rfl, rfl⟩
    next => contradiction
  next => contradiction

theorem malformedResult_assigned {id : ByteString} {result : ResultMsg}
    (malformed : malformedResult id = some result) : Assigned result.respStatus :=
  @fill_assigns (.error .malformedMessage) _ _ trivial malformed

/-- A result that a worker makes has a status, unless its action has listed values. -/
theorem Produced.assigned {env : WorkerEnvironment} {answer : Answer}
    (produced : Produced env (FromPlugin env fun asset sess msg plugin =>
      ¬ ListsValues asset sess msg plugin) answer) : Assigned answer.result.respStatus := by
  cases produced with
  | acted reads admitted =>
      obtain ⟨plugin, asset, sess, msg, -, returns, notListed⟩ :=
        (admitted _ reads).resolve_left nofun
      obtain ⟨exit, acted, -, filled, fills, rfl, -⟩ := outcome_eq_returns returns.symm
      have assigned := fill_assigns (act_assigns acted notListed) fills
      exact assigned
  | unknown _ malformed | failed _ _ malformed | unreadable malformed =>
      exact malformedResult_assigned malformed

end Cdcm.Backend
