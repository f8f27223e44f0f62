import Cdcm.Backend.MessageWorker
import Cdcm.SessionsCache.Session

/-!
# The actions of the workers

The plugins under `services/samba_based`: the messages that they read and their methods
`act`.  What the remote machine answers to the calls of an action, and the texts of its
error codes, are those of an asset.  An exit of `act` is a status and the call that has
filled in the result.
-/

namespace Cdcm.Backend

open Json Protocol SessionsCache

/-! ## Messages -/

/-- The plugins. -/
inductive Plugin where
  | enumerateKey
  | enumerateRegistryValues
  | getRegistryPermissions
  | keyExists
  | queryValue
  | valueExists
  | smbFileExists
  | smbGetFileInfo
  | smbListDir
  | smbReadFile
  | getNtfsFilePermissions
  | getNtfsFolderPermissions
  | getSharePermissions
  | enumerateShares
  deriving DecidableEq, Repr

/-- `act_name` of a plugin. -/
def Plugin.name : Plugin → ByteString
  | .enumerateKey => text "enumerate"
  | .enumerateRegistryValues => text "enumerate_registry_values"
  | .getRegistryPermissions => text "get_registry_permissions"
  | .keyExists => text "key_exists"
  | .queryValue => text "query_value"
  | .valueExists => text "value_exists"
  | .smbFileExists => text "file_exists"
  | .smbGetFileInfo => text "get_file_info"
  | .smbListDir => text "list_dir"
  | .smbReadFile => text "read_file"
  | .getNtfsFilePermissions => text "get_ntfs_file_permissions"
  | .getNtfsFolderPermissions => text "get_ntfs_folder_permissions"
  | .getSharePermissions => text "get_share_permissions"
  | .enumerateShares => text "enumerate_shares"

/-- `Dispatcher::find` over plugins that have been loaded. -/
def Plugin.find (loaded : List Plugin) (key : ByteString) : Option Plugin :=
  loaded.find? fun plugin => plugin.name = key

/-- The messages that the plugins read. -/
inductive PluginMsg where
  | enumKey (id key : ByteString)
  | enumerateRegistryValues (id key : ByteString)
  | getRegistryPermissions (id key : ByteString)
  | keyExists (id key : ByteString)
  | queryValue (id key value : ByteString)
  | valueExists (id key value : ByteString)
  | smbFileExists (id param : ByteString)
  | smbGetFileInfo (id param : ByteString)
  | smbListDir (id param pattern : ByteString)
  | smbReadFile (id path size offset : ByteString)
  | getNtfsFilePermissions (id path : ByteString)
  | getNtfsFolderPermissions (id path : ByteString)
  | getSharePermissions (id shareName : ByteString)
  | enumerateShares (id : ByteString)
  deriving DecidableEq, Repr

/-- `id` of a message. -/
def PluginMsg.id : PluginMsg → ByteString
  | .enumKey id _ | .enumerateRegistryValues id _ | .getRegistryPermissions id _
  | .keyExists id _ | .queryValue id _ _ | .valueExists id _ _ | .smbFileExists id _
  | .smbGetFileInfo id _ | .smbListDir id _ _ | .smbReadFile id _ _ _
  | .getNtfsFilePermissions id _ | .getNtfsFolderPermissions id _
  | .getSharePermissions id _ | .enumerateShares id => id

/-- The fields of a message besides its id, as its plugin reads them. -/
def Plugin.readFields (plugin : Plugin) (id : ByteString)
    (field : ByteString → Except Fault ByteString) : Except Fault PluginMsg := do
  match plugin with
  | .enumerateKey => return .enumKey id (← field (text "key"))
  | .enumerateRegistryValues => return .enumerateRegistryValues id (← field (text "key"))
  | .getRegistryPermissions => return .getRegistryPermissions id (← field (text "key"))
  | .keyExists => return .keyExists id (← field (text "key"))
  | .queryValue => return .queryValue id (← field (text "key")) (← field (text "value"))
  | .valueExists => return .valueExists id (← field (text "key")) (← field (text "value"))
  | .smbFileExists => return .smbFileExists id (← field (text "path"))
  | .smbGetFileInfo => return .smbGetFileInfo id (← field (text "path"))
  | .smbListDir => return .smbListDir id (← field (text "path")) (← field (text "pattern"))
  | .smbReadFile =>
      return .smbReadFile id (← field (text "path")) (← field (text "size"))
        (← field (text "offset"))
  | .getNtfsFilePermissions => return .getNtfsFilePermissions id (← field (text "path"))
  | .getNtfsFolderPermissions => return .getNtfsFolderPermissions id (← field (text "path"))
  | .getSharePermissions => return .getSharePermissions id (← field (text "share_name"))
  | .enumerateShares => return .enumerateShares id

/-- `get_message` of a plugin. -/
def Plugin.getMessage (plugin : Plugin) (actMsg : Value) : Except Fault PluginMsg := do
  let body ← actMsg.at plugin.name
  let field (key : ByteString) : Except Fault ByteString := do (← body.at key).asString
  plugin.readFields (← field (text "id")) field

/-- What a worker does with plugins that have been loaded: it finds one by the key of an
action, and reads the message with it. -/
def Plugin.reader (loaded : List Plugin) (key : ByteString) :
    Option (Value → Except Fault ByteString) :=
  (Plugin.find loaded key).map fun plugin actionMessage => do
    let msg ← plugin.getMessage actionMessage
    return msg.id

/-! ## Assets -/

/-- The `result` of a client: success, and a `WERROR`. -/
structure WResult where
  ok : Bool
  werror : Nat
  deriving DecidableEq, Repr

def werrPipeBusy : Nat := 0xe7

def werrFileNotFound : Nat := 2

/-- `registry_value`, without the number of its type. -/
structure RegistryValue where
  name : ByteString
  type : ByteString
  value : ByteString

/-- `sub_key`. -/
structure SubKey where
  name : ByteString
  className : ByteString
  lastModified : ByteString

/-- `dirent`. -/
structure Dirent where
  name : ByteString
  type : ByteString

/-- `share_info`. -/
structure ShareInfo where
  name : ByteString
  comment : ByteString
  path : ByteString

def RegistryValue.toValue (rv : RegistryValue) : Value :=
  .object [(text "name", .string rv.name), (text "type", .string rv.type),
    (text "value", .string rv.value)]

def SubKey.toValue (key : SubKey) : Value :=
  .object [(text "class_name", .string key.className),
    (text "last_modified", .string key.lastModified), (text "name", .string key.name)]

def Dirent.toValue (entry : Dirent) : Value :=
  .object [(text "name", .string entry.name), (text "type", .string entry.type)]

def ShareInfo.toValue (share : ShareInfo) : Value :=
  .object [(text "Comment", .string share.comment), (text "Name", .string share.name),
    (text "Path", .string share.path)]

/-- `ACE_str`. -/
structure AceStr where
  securityPrincipal : ByteString
  fileSystemRights : List ByteString
  accessControlType : ByteString
  accessControlFlags : List ByteString

/-- `Security_Descriptor_str`. -/
structure SecurityDescriptorStr where
  revision : ByteString
  control : List ByteString
  owner : ByteString
  group : ByteString
  acls : List AceStr

def AceStr.toValue (ace : AceStr) : Value :=
  .object [(text "AccessControlFlags", .array (ace.accessControlFlags.map .string)),
    (text "AccessControlType", .string ace.accessControlType),
    (text "FileSystemRights", .array (ace.fileSystemRights.map .string)),
    (text "SecurityPrincipal", .string ace.securityPrincipal)]

def SecurityDescriptorStr.toValue (sd : SecurityDescriptorStr) : Value :=
  .object [(text "ACLS", .array (sd.acls.map AceStr.toValue)),
    (text "Control", .array (sd.control.map .string)), (text "Group", .string sd.group),
    (text "Owner", .string sd.owner), (text "Revision", .string sd.revision)]

/-- What the remote machine answers to the calls of an action, with the texts of the
error codes, and the fate of the buffer for a file. -/
structure Asset where
  connect : WResult
  openKey : WResult
  subKeys : List SubKey
  registryValues : List RegistryValue
  enumerated : WResult
  value : WResult × RegistryValue
  sd : WResult × SecurityDescriptorStr
  openFile : Bool × Nat
  listed : Option (List Dirent)
  errno : Nat
  fileSize : Nat
  lastModified : Int
  peValues : List (ByteString × ByteString)
  allocates : Bool
  read : Nat → Nat → Int × ByteString
  shares : WResult × List ShareInfo
  winErrstr : Nat → ByteString
  ntErrstr : Nat → ByteString
  strerror : Nat → ByteString
  wildcards : ByteString → ByteString → Bool

/-! ## Exits -/

/-- The call that fills in a result; `res` sets the value only. -/
inductive Response where
  | success (data : Value)
  | error (cdcmError : CdcmError)
  | uniqueError (cdcmError : CdcmError) (errorCode : Nat) (errMsg : ByteString)
  | res (data : Value)

/-- Make the call. -/
def Response.fill (res : ResultMsg) : Response → Option ResultMsg
  | .success data => res.setResponseForSuccess data
  | .error cdcmError => res.setResponseForError cdcmError
  | .uniqueError cdcmError errorCode errMsg =>
      res.setResponseForErrorWithUniqueCodeOrMsg cdcmError errorCode errMsg
  | .res data => some { res with result := some data }

/-- The data of the operation, when it has any. -/
def Response.data : Response → Option Value
  | .success data | .res data => some data
  | .error .. | .uniqueError .. => none

/-- A status, and the call before the return. -/
structure Exit where
  status : ActionStatus
  response : Response

/-- What the caller of `act` sees. -/
def Exit.outcome (exit : Exit) (id : ByteString) : ActOutcome :=
  match exit.response.fill { ResultMsg.new with id := id } with
  | some res => .returns exit.status res.respStatus res.result
  | none => .throws

/-- A failed action. -/
def Exit.failed (error : CdcmError) : Exit := ⟨.failed, .error error⟩

/-- A failed cast of the message. -/
def Exit.failedCast : Exit := .failed .internalError

/-- `set_response_for_error_with_unique_code_or_msg` for an error of the asset. -/
def generalError (werror : Nat) (message : ByteString) : Response :=
  .uniqueError .generalErrorWithAsset werror message

/-- The check for a session at the start of every `act`. -/
def hasSession (sess : Option Session) : Bool :=
  match sess with
  | none => false
  | some sess => sess.uuid ≠ 0

/-- The connection of the registry actions, which are postponed when the pipe is busy. -/
def withRegistry (asset : Asset) (exit : Exit) : Exit :=
  if !asset.connect.ok then
    let response := generalError asset.connect.werror (asset.winErrstr asset.connect.werror)
    if asset.connect.werror = werrPipeBusy then ⟨.postponed, response⟩ else ⟨.failed, response⟩
  else exit

/-- The connection of the other actions. -/
def withConnection (asset : Asset) (exit : Exit) : Exit :=
  if !asset.connect.ok then
    ⟨.failed, generalError asset.connect.werror (asset.winErrstr asset.connect.werror)⟩
  else exit

/-- The exits for a security descriptor. -/
def securityDescriptor (asset : Asset) : Exit :=
  if asset.sd.1.ok then ⟨.succeeded, .success asset.sd.2.toValue⟩
  else ⟨.failed, generalError asset.sd.1.werror (asset.ntErrstr asset.sd.1.werror)⟩

/-! ## The registry -/

section Act

variable (asset : Asset) (sess : Option Session)

/-- `Enumerate_Key_Action::act`. -/
def actEnumerateKey (msg : PluginMsg) : Exit :=
  if !hasSession sess then .failed .sessionNotFound
  else
    match msg with
    | .enumKey _ key =>
        if key = [] then .failed .keyIsMandatory
        else withRegistry asset <|
          if asset.enumerated.ok then
            ⟨.succeeded, .success (.object
              [(text "registry_values",
                .array (asset.registryValues.map RegistryValue.toValue)),
              (text "sub_keys", .array (asset.subKeys.map SubKey.toValue))])⟩
          else
            ⟨.succeeded, generalError asset.enumerated.werror
              (asset.ntErrstr asset.enumerated.werror)⟩
    | _ => .failedCast

/-- `Enumerate_Registry_Values_Action::act`. -/
def actEnumerateRegistryValues (msg : PluginMsg) : Exit :=
  if !hasSession sess then .failed .sessionNotFound
  else
    match msg with
    | .enumerateRegistryValues _ key =>
        if key = [] then .failed .keyIsMandatory
        else withRegistry asset <|
          if asset.enumerated.ok then
            ⟨.succeeded, .res (.object [(text "registry_values",
              .array (asset.registryValues.map RegistryValue.toValue))])⟩
          else
            ⟨.succeeded, generalError asset.enumerated.werror
              (asset.ntErrstr asset.enumerated.werror)⟩
    | _ => .failedCast

/-- `Get_Registry_Permissions_Action::act`. -/
def actGetRegistryPermissions (msg : PluginMsg) : Exit :=
  if !hasSession sess then .failed .sessionNotFound
  else
    match msg with
    | .getRegistryPermissions _ key =>
        if key = [] then .failed .keyIsMandatory
        else withRegistry asset <|
          if !asset.openKey.ok then .failed .openKeyFailed else securityDescriptor asset
    | _ => .failedCast

/-- `Key_Exists_Action::act`. -/
def actKeyExists (msg : PluginMsg) : Exit :=
  if !hasSession sess then .failed .sessionNotFound
  else
    match msg with
    | .keyExists _ key =>
        if key = [] then .failed .keyIsMandatory
        else withRegistry asset <|
          if !asset.openKey.ok then
            if asset.openKey.werror = werrFileNotFound then
              ⟨.succeeded, .success (.string (text "False"))⟩
            else
              ⟨.failed, generalError asset.openKey.werror (asset.winErrstr asset.openKey.werror)⟩
          else ⟨.succeeded, .success (.string (text "True"))⟩
    | _ => .failedCast

/-- `Query_Value_Action::act`. -/
def actQueryValue (msg : PluginMsg) : Exit :=
  if !hasSession sess then .failed .sessionNotFound
  else
    match msg with
    | .queryValue _ key _ =>
        if key = [] then .failed .keyIsMandatory
        else withRegistry asset <|
          if !asset.openKey.ok then
            ⟨.failed, generalError asset.openKey.werror (asset.winErrstr asset.openKey.werror)⟩
          else if !asset.value.1.ok then .failed .valueIsEmpty
          else if asset.value.2.value = [] then ⟨.succeeded, .error .valueIsEmpty⟩
          else ⟨.succeeded, .success (.string asset.value.2.value)⟩
    | _ => .failedCast

/-- `Value_Exists_Action::act`. -/
def actValueExists (msg : PluginMsg) : Exit :=
  if !hasSession sess then .failed .sessionNotFound
  else
    match msg with
    | .valueExists _ key value =>
        if key = [] ∨ value = [] then .failed .keyAndValueAreMandatory
        else withRegistry asset <|
          if !asset.openKey.ok then
            if asset.openKey.werror = werrFileNotFound then
              ⟨.succeeded, .success (.string (text "False"))⟩
            else
              ⟨.failed, generalError asset.openKey.werror (asset.winErrstr asset.openKey.werror)⟩
          else if !asset.value.1.ok then
            if asset.value.1.werror = werrFileNotFound then
              ⟨.succeeded, .success (.string (text "False"))⟩
            else
              ⟨.failed, generalError asset.value.1.werror (asset.winErrstr asset.value.1.werror)⟩
          else ⟨.succeeded, .success (.string (text "True"))⟩
    | _ => .failedCast

/-! ## Files -/

/-- `ENODEV`, `ENOTDIR` and `ENOENT`. -/
def missingFile : List Nat := [19, 20, 2]

/-- The exit for a file that cannot be opened. -/
def failedOpen : Exit :=
  ⟨.failed, generalError asset.openFile.2 (asset.strerror asset.openFile.2)⟩

/-- `SMB_File_Exists::act`. -/
def actSmbFileExists (msg : PluginMsg) : Exit :=
  if !hasSession sess then .failed .sessionNotFound
  else
    match msg with
    | .smbFileExists _ param =>
        if param = [] then .failed .pathIsMandatory
        else if !asset.openFile.1 then
          if asset.openFile.2 ∈ missingFile then ⟨.succeeded, .success (.string (text "False"))⟩
          else failedOpen asset
        else ⟨.succeeded, .success (.string (text "True"))⟩
    | _ => .failedCast

/-- A number in decimal. -/
def decimal (number : Int) : Value := .string (text (toString number))

/-- What `SMB_Get_File_Info::act` puts together; the values of the PE header, if it has
been parsed, are those behind the correction of the file version. -/
def fileInfo : Value :=
  .object (asset.peValues.map (fun (key, value) =>
      (key, .string (if value = [] then text "NULL" else value))) ++
    [(text "last_modified", decimal asset.lastModified), (text "path", .string (text "NULL")),
      (text "size", decimal asset.fileSize)])

/-- `SMB_Get_File_Info::act`. -/
def actSmbGetFileInfo (msg : PluginMsg) : Exit :=
  if !hasSession sess then .failed .sessionNotFound
  else
    match msg with
    | .smbGetFileInfo _ param =>
        if param = [] then .failed .pathIsMandatory
        else if !asset.openFile.1 then failedOpen asset
        else ⟨.succeeded, .success (fileInfo asset)⟩
    | _ => .failedCast

/-- `SMB_List_Dir::act`. -/
def actSmbListDir (msg : PluginMsg) : Exit :=
  if !hasSession sess then .failed .sessionNotFound
  else
    match msg with
    | .smbListDir _ param pattern =>
        if param = [] then .failed .pathIsMandatory
        else
          match asset.listed with
          | none => ⟨.failed, generalError asset.errno (asset.strerror asset.errno)⟩
          | some dirEntries =>
              let dirEntries :=
                if pattern ≠ [] then
                  dirEntries.filter fun entry => asset.wildcards entry.name pattern
                else dirEntries
              ⟨.succeeded, .success (.array (dirEntries.map Dirent.toValue))⟩
    | _ => .failedCast

/-- `isspace` in the C locale. -/
def isSpace (byte : Byte) : Bool := byte = 32 ∨ 9 ≤ byte ∧ byte ≤ 13

def isDigit (byte : Byte) : Bool := 48 ≤ byte ∧ byte ≤ 57

/-- `std::stoll`, which throws without digits and on numbers that do not fit. -/
def stoll (number : ByteString) : Option Int :=
  let number := number.dropWhile isSpace
  let (negative, number) :=
    match number with
    | byte :: rest => if byte = 45 then (true, rest) else if byte = 43 then (false, rest)
        else (false, number)
    | [] => (false, [])
  let digits := number.takeWhile isDigit
  let magnitude : Int := digits.foldl (fun value digit => 10 * value + (digit.val - 48 : Nat)) 0
  let value := if negative then -magnitude else magnitude
  if digits = [] ∨ value < -2 ^ 63 ∨ 2 ^ 63 ≤ value then none else some value

def base64Alphabet : ByteString :=
  text "ABCDEFGHIJKLMNOPQRSTUVWXYZabcdefghijklmnopqrstuvwxyz0123456789+/"

/-- The letter for the low six bits. -/
def base64Letter (bits : Nat) : Byte := base64Alphabet.getD (bits % 64) 0

/-- `base64_encode`. -/
def base64Encode : ByteString → ByteString
  | [] => []
  | [first] =>
      let bitsContainer := first.val * 2 ^ 16
      [base64Letter (bitsContainer / 2 ^ 18), base64Letter (bitsContainer / 2 ^ 12), 61, 61]
  | [first, second] =>
      let bitsContainer := first.val * 2 ^ 16 + second.val * 2 ^ 8
      [base64Letter (bitsContainer / 2 ^ 18), base64Letter (bitsContainer / 2 ^ 12),
        base64Letter (bitsContainer / 2 ^ 6), 61]
  | first :: second :: third :: rest =>
      let bitsContainer := first.val * 2 ^ 16 + second.val * 2 ^ 8 + third.val
      base64Letter (bitsContainer / 2 ^ 18) :: base64Letter (bitsContainer / 2 ^ 12) ::
        base64Letter (bitsContainer / 2 ^ 6) :: base64Letter bitsContainer :: base64Encode rest

/-- `SMB_Read_File::act` behind the checks of its parameters. `make_unique` throws where
there is no memory, so that the check of its result never fails. -/
def readSmbFile (offset size : Nat) : Option Exit :=
  if !asset.openFile.1 then some (failedOpen asset)
  else
    let size := if size = 0 then (asset.fileSize + 2 ^ 64 - offset) % 2 ^ 64 else size
    if !asset.allocates then none
    else
      let (count, bytes) := asset.read offset size
      if count = -1 then some (.failed .readFileFailed)
      else some ⟨.succeeded, .success (.string (base64Encode (bytes.take count.toNat)))⟩

/-- `SMB_Read_File::act`, with an empty offset or size for zero. -/
def actSmbReadFile (msg : PluginMsg) : Option Exit :=
  if !hasSession sess then some (.failed .sessionNotFound)
  else
    match msg with
    | .smbReadFile _ path size offset =>
        if path = [] then some (.failed .pathIsMandatory)
        else do
          let offset ← stoll (if offset = [] then text "0" else offset)
          if offset < 0 then some (.failed .badParameter)
          else
            let size ← stoll (if size = [] then text "0" else size)
            if size < 0 then some (.failed .badParameter)
            else readSmbFile asset offset.toNat size.toNat
    | _ => some .failedCast

/-! ## Permissions and shares -/

/-- `split_share_path`: the share in front of the first backslash, and the path. -/
def splitSharePath (full : ByteString) : ByteString × ByteString :=
  let share := full.takeWhile fun byte => byte ≠ 92
  (share, full.drop (share.length + 1))

/-- The permissions of a file or a folder under a path. -/
def ntfsPermissions (path : ByteString) : Exit :=
  if path = [] then .failed .pathIsMandatory
  else if (splitSharePath path).1 = [] then .failed .shareIsMissingInKey
  else withConnection asset (securityDescriptor asset)

/-- `Get_NTFS_File_Permissions_Action::act`. -/
def actGetNtfsFilePermissions (msg : PluginMsg) : Exit :=
  if !hasSession sess then .failed .sessionNotFound
  else
    match msg with
    | .getNtfsFilePermissions _ path => ntfsPermissions asset path
    | _ => .failedCast

/-- `Get_NTFS_Folder_Permissions_Action::act`. -/
def actGetNtfsFolderPermissions (msg : PluginMsg) : Exit :=
  if !hasSession sess then .failed .sessionNotFound
  else
    match msg with
    | .getNtfsFolderPermissions _ path => ntfsPermissions asset path
    | _ => .failedCast

/-- `Get_Share_Permissions_Action::act`. -/
def actGetSharePermissions (msg : PluginMsg) : Exit :=
  if !hasSession sess then .failed .sessionNotFound
  else
    match msg with
    | .getSharePermissions _ shareName =>
        if shareName = [] then .failed .shareNameIsMandatory
        else withConnection asset (securityDescriptor asset)
    | _ => .failedCast

/-- `Enumerate_Shares_Action::act`. -/
def actEnumerateShares (msg : PluginMsg) : Exit :=
  if !hasSession sess then .failed .sessionNotFound
  else
    match msg with
    | .enumerateShares _ =>
        withConnection asset <|
          if asset.shares.1.ok then
            ⟨.succeeded, .success (.array (asset.shares.2.map ShareInfo.toValue))⟩
          else
            ⟨.failed, generalError asset.shares.1.werror (asset.ntErrstr asset.shares.1.werror)⟩
    | _ => .failedCast

/-- `act` of a plugin; `none` when it throws. -/
def Plugin.act (msg : PluginMsg) : Plugin → Option Exit
  | .enumerateKey => some (actEnumerateKey asset sess msg)
  | .enumerateRegistryValues => some (actEnumerateRegistryValues asset sess msg)
  | .getRegistryPermissions => some (actGetRegistryPermissions asset sess msg)
  | .keyExists => some (actKeyExists asset sess msg)
  | .queryValue => some (actQueryValue asset sess msg)
  | .valueExists => some (actValueExists asset sess msg)
  | .smbFileExists => some (actSmbFileExists asset sess msg)
  | .smbGetFileInfo => some (actSmbGetFileInfo asset sess msg)
  | .smbListDir => some (actSmbListDir asset sess msg)
  | .smbReadFile => actSmbReadFile asset sess msg
  | .getNtfsFilePermissions => some (actGetNtfsFilePermissions asset sess msg)
  | .getNtfsFolderPermissions => some (actGetNtfsFolderPermissions asset sess msg)
  | .getSharePermissions => some (actGetSharePermissions asset sess msg)
  | .enumerateShares => some (actEnumerateShares asset sess msg)

end Act

end Cdcm.Backend
