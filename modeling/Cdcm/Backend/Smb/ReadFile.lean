import Cdcm.Backend.Smb.Client
import Cdcm.Backend.Smb.Encoding

/-!
# Reading a slice of a file

`SMB_Read_File::act` over the reads of `smb_client`, with the size of the buffer that it asks
for and the read that it makes.  The offset and the size are decimal strings, and a size of
zero asks for the rest of the file.
-/

namespace Cdcm.Backend.Smb

open Pe SessionsCache

/-! ## The code -/

/-- A call of `act`: its exit, unless it throws, the size of the buffer that it has asked for,
and the offset and the size of the read that it has made. -/
structure ReadFileTrace where
  exit : Option Exit
  requested : Option Nat
  read : Option (Nat × Nat)

/-- A call that does not get to the buffer. -/
def ReadFileTrace.early (exit : Option Exit) : ReadFileTrace := ⟨exit, none, none⟩

variable (asset : Asset) (sess : Option Session)

/-- `SMB_Read_File::act` behind the checks of its parameters. -/
def traceSmbFile (offset size : Nat) : ReadFileTrace :=
  if !asset.openFile.1 then .early (some (failedOpen asset))
  else
    let size := if size = 0 then (asset.fileSize + 2 ^ 64 - offset) % 2 ^ 64 else size
    if !asset.allocates then ⟨none, some size, none⟩
    else
      let (count, bytes) := asset.read offset size
      if count = -1 then ⟨some (.failed .readFileFailed), some size, some (offset, size)⟩
      else
        ⟨some ⟨.succeeded, .success (.string (base64Encode (bytes.take count.toNat)))⟩,
          some size, some (offset, size)⟩

/-- `SMB_Read_File::act`. -/
def traceReadFile (msg : PluginMsg) : ReadFileTrace :=
  if !hasSession sess then .early (some (.failed .sessionNotFound))
  else
    match msg with
    | .smbReadFile _ path size offset =>
        if path = [] then .early (some (.failed .pathIsMandatory))
        else
          match stoll (if offset = [] then text "0" else offset) with
          | none => .early none
          | some offset =>
              if offset < 0 then .early (some (.failed .badParameter))
              else
                match stoll (if size = [] then text "0" else size) with
                | none => .early none
                | some size =>
                    if size < 0 then .early (some (.failed .badParameter))
                    else traceSmbFile asset offset.toNat size.toNat
    | _ => .early (some .failedCast)

/-- The trace is one of `act`. -/
theorem traceReadFile_exit (msg : PluginMsg) :
    (traceReadFile asset sess msg).exit = actSmbReadFile asset sess msg := by
  have behind (offset size : Nat) :
      (traceSmbFile asset offset size).exit = readSmbFile asset offset size := by
    simp only [traceSmbFile, readSmbFile]
    generalize (if size = 0 then (asset.fileSize + 2 ^ 64 - offset) % 2 ^ 64 else size) = size
    cases asset.openFile.1 with
    | false => rfl
    | true =>
        cases asset.allocates with
        | false => rfl
        | true => by_cases failed : (asset.read offset size).1 = -1 <;> simp [failed]
  cases session : hasSession sess with
  | false => simp [traceReadFile, actSmbReadFile, session, ReadFileTrace.early]
  | true =>
      cases msg with
      | smbReadFile id path size offset =>
          simp only [traceReadFile, actSmbReadFile, session, Bool.not_true, Bool.false_eq_true,
            if_false]
          by_cases empty : path = []
          · simp [empty, ReadFileTrace.early]
          · simp only [empty, if_false]
            cases stoll (if offset = [] then text "0" else offset) with
            | none => rfl
            | some offset =>
                by_cases negative : offset < 0
                · simp [negative, ReadFileTrace.early]
                · simp only [negative, if_false, Option.bind_eq_bind, Option.bind_some]
                  cases stoll (if size = [] then text "0" else size) with
                  | none => rfl
                  | some size =>
                      by_cases negative : size < 0
                      · simp [negative, ReadFileTrace.early]
                      · simp only [negative, if_false, Option.bind_some]
                        exact behind offset.toNat size.toNat
      | _ => simp [traceReadFile, actSmbReadFile, session, ReadFileTrace.early]

/-! ## Decimal numbers -/

/-- The number of a string of digits; none of them stand for zero. -/
def decimalValue (digits : ByteString) : Nat :=
  digits.foldl (fun value digit => 10 * value + (digit.val - 48)) 0

theorem foldl_digits (digits : ByteString) (start : Nat) :
    digits.foldl (fun (value : Int) digit => 10 * value + (digit.val - 48 : Nat)) start =
      (digits.foldl (fun value digit => 10 * value + (digit.val - 48)) start : Nat) := by
  induction digits generalizing start with
  | nil => rfl
  | cons digit digits ih =>
      rw [List.foldl_cons, List.foldl_cons, ← ih]
      push_cast
      rfl

/-- `std::stoll` reads strings of digits, unless the number is too large. -/
theorem stoll_digits {digits : ByteString} (decimal : ∀ byte ∈ digits, isDigit byte = true) :
    stoll (if digits = [] then text "0" else digits) =
      if decimalValue digits < 2 ^ 63 then some (decimalValue digits : Int) else none := by
  cases digits with
  | nil => decide
  | cons first rest =>
      have digit : 48 ≤ first.val ∧ first.val ≤ 57 :=
        of_decide_eq_true (decimal first List.mem_cons_self)
      have notSpace : isSpace first = false := by
        refine decide_eq_false fun space => ?_
        simp only [Fin.le_def, Fin.ext_iff] at space
        omega
      have notMinus : first ≠ 45 := by
        intro same
        simp [same] at digit
      have notPlus : first ≠ 43 := by
        intro same
        simp [same] at digit
      have whole : (first :: rest).takeWhile isDigit = first :: rest :=
        List.takeWhile_eq_self_iff.mpr decimal
      have magnitude : (first :: rest).foldl
          (fun (value : Int) digit => 10 * value + (digit.val - 48 : Nat)) 0 =
            (decimalValue (first :: rest) : Int) := foldl_digits (first :: rest) 0
      rw [if_neg (List.cons_ne_nil _ _), stoll, List.dropWhile_cons_of_neg (by simp [notSpace])]
      simp only [notMinus, notPlus, if_false, whole, List.cons_ne_nil, false_or, Bool.false_eq_true,
        magnitude]
      by_cases fits : decimalValue (first :: rest) < 2 ^ 63
      · rw [if_pos fits, if_neg (by omega)]
      · rw [if_neg fits, if_pos (by omega)]

/-! ## The slice -/

/-- What a size asks for: the rest of the file for zero. -/
def wanted (content : ByteString) (offset size : Nat) : Nat :=
  if size = 0 then content.length - offset else size

/-- The slice of a file. -/
def slice (content : ByteString) (offset size : Nat) : ByteString :=
  (content.drop offset).take (wanted content offset size)

/-- `act` answers with an error and reads nothing, or with the slice; it never asks for a buffer
that is larger than the size and the file. -/
def AnswersSlice (trace : ReadFileTrace) (content : ByteString) (offset size : Nat) : Prop :=
  (∃ exit, trace.exit = some exit ∧
    (exit.response.data = none ∧ trace.read = none ∨
      exit = ⟨.succeeded, .success (.string (base64Encode (slice content offset size)))⟩)) ∧
  ∀ requested, trace.requested = some requested → requested ≤ max size content.length

/-- There is nothing to read for, or both numbers fit, there is memory, and the offset is not
behind the end of a file the rest of which is asked for. -/
def Readable (asset : Asset) (sess : Option Session) (path content : ByteString)
    (offset size : Nat) : Prop :=
  hasSession sess = false ∨ path = [] ∨
    offset < 2 ^ 63 ∧ size < 2 ^ 63 ∧ asset.allocates = true ∧
      (size = 0 → offset ≤ content.length)

/-- The file of an asset, which is opened, and read with `smb_client::read`. -/
structure ServedBy (asset : Asset) (file : RemoteFile) (content : ByteString) : Prop where
  opens : asset.openFile.1 = true
  fileSize : asset.fileSize = content.length
  reads : ∀ offset size, ∃ call dest, asset.read offset size =
    ((clientRead file call offset size dest).1,
      (List.range (clientRead file call offset size dest).1.toNat).map
        (clientRead file call offset size dest).2.dest)

variable {asset sess} {file : RemoteFile} {content : ByteString}

/-- `act` behind its checks, on a complete file. -/
theorem traceSmbFile_eq (served : ServedBy asset file content) (complete : Complete file content)
    (small : content.length < 2 ^ 63) {offset size : Nat} (offsetFits : offset < 2 ^ 63) :
    traceSmbFile asset offset size =
      let size := if size = 0 then (content.length + 2 ^ 64 - offset) % 2 ^ 64 else size
      if asset.allocates = true then
        ⟨some ⟨.succeeded,
            .success (.string (base64Encode ((content.drop offset).take size)))⟩,
          some size, some (offset, size)⟩
      else ⟨none, some size, none⟩ := by
  simp only [traceSmbFile, served.opens, served.fileSize]
  generalize (if size = 0 then (content.length + 2 ^ 64 - offset) % 2 ^ 64 else size) = size
  obtain ⟨call, dest, reads⟩ := served.reads offset size
  obtain ⟨succeeded, stored⟩ := clientRead_complete complete small call offsetFits size dest
  cases allocates : asset.allocates with
  | false => simp
  | true =>
      simp only [Bool.not_true, Bool.false_eq_true, if_false, reads, succeeded, if_true]
      rw [List.take_of_length_le (by simp), stored]

/-- A call that throws answers nothing. -/
theorem not_answersSlice {trace : ReadFileTrace} {offset size : Nat} (throws : trace.exit = none) :
    ¬AnswersSlice trace content offset size := by
  intro ⟨⟨exit, returns, _⟩, _⟩
  rw [throws] at returns
  contradiction

/-- An early error reads nothing and asks for no buffer. -/
theorem answersSlice_early {exit : Exit} {offset size : Nat} (error : exit.response.data = none) :
    AnswersSlice (.early (some exit)) content offset size :=
  ⟨⟨exit, rfl, .inl ⟨error, rfl⟩⟩, fun _ none => nomatch none⟩

/-- `act` behind its checks answers with the slice exactly when there is memory and the
offset is not behind the end of a file the rest of which is asked for. -/
theorem traceSmbFile_answers_iff (served : ServedBy asset file content)
    (complete : Complete file content) (small : content.length < 2 ^ 63) {offset size : Nat}
    (offsetFits : offset < 2 ^ 63) :
    AnswersSlice (traceSmbFile asset offset size) content offset size ↔
      asset.allocates = true ∧ (size = 0 → offset ≤ content.length) := by
  rw [traceSmbFile_eq served complete small offsetFits]
  by_cases allocates : asset.allocates = true
  · simp only [allocates, if_true, true_and]
    by_cases rest : size = 0
    · simp only [rest, if_true, forall_const]
      constructor
      · intro ⟨_, bounded⟩
        have bound := bounded _ rfl
        rw [Nat.zero_max] at bound
        omega
      · intro inside
        have remaining : (content.length + 2 ^ 64 - offset) % 2 ^ 64 = content.length - offset := by
          omega
        rw [remaining]
        refine ⟨⟨_, rfl, .inr rfl⟩, fun requested same => ?_⟩
        rw [Nat.zero_max, ← Option.some.inj same]
        omega
    · simp only [rest, if_false, false_implies, iff_true]
      refine ⟨⟨_, rfl, .inr ?_⟩, fun requested same => ?_⟩
      · rw [slice, wanted, if_neg rest]
      · rw [← Option.some.inj same]
        exact Nat.le_max_left _ _
  · refine iff_of_false (not_answersSlice ?_) fun both => allocates both.1
    simp [allocates]

/-- `read_file` answers with the slice, or with an error, exactly where it is readable: for
digits as an offset and a size, on a complete file that opens. -/
theorem readFile_answers_iff (served : ServedBy asset file content)
    (complete : Complete file content) (small : content.length < 2 ^ 63)
    (id path : ByteString) {offset size : ByteString}
    (offsetDecimal : ∀ byte ∈ offset, isDigit byte = true)
    (sizeDecimal : ∀ byte ∈ size, isDigit byte = true) :
    AnswersSlice (traceReadFile asset sess (.smbReadFile id path size offset)) content
        (decimalValue offset) (decimalValue size) ↔
      Readable asset sess path content (decimalValue offset) (decimalValue size) := by
  cases session : hasSession sess with
  | false =>
      simp only [traceReadFile, session, Bool.not_false, if_true, Readable, true_or, iff_true]
      exact answersSlice_early rfl
  | true =>
      by_cases empty : path = []
      · simp only [traceReadFile, session, Bool.not_true, Bool.false_eq_true, if_false, empty,
          if_true, Readable, true_or, or_true, iff_true]
        exact answersSlice_early rfl
      · simp only [traceReadFile, session, Bool.not_true, Bool.false_eq_true, if_false, empty,
          Readable, false_or, stoll_digits offsetDecimal, stoll_digits sizeDecimal]
        by_cases offsetFits : decimalValue offset < 2 ^ 63
        · by_cases sizeFits : decimalValue size < 2 ^ 63
          · have notNegative (number : Nat) : ¬((number : Int) < 0) := by omega
            simp only [offsetFits, sizeFits, if_true, notNegative, if_false, Int.toNat_natCast,
              true_and, reduceCtorEq, false_or]
            exact traceSmbFile_answers_iff served complete small offsetFits
          · have notNegative (number : Nat) : ¬((number : Int) < 0) := by omega
            simp only [offsetFits, sizeFits, if_true, notNegative, if_false, false_and, and_false,
              reduceCtorEq, or_self, iff_false]
            exact not_answersSlice rfl
        · simp only [offsetFits, if_false, false_and, reduceCtorEq, or_self, iff_false]
          exact not_answersSlice rfl

/-! ## Two calls -/

/-- A remote machine with one file, read in uneven parts. -/
def unevenAsset (content : ByteString) : Asset where
  connect := ⟨true, 0⟩
  openKey := ⟨true, 0⟩
  subKeys := []
  registryValues := []
  enumerated := ⟨true, 0⟩
  value := (⟨true, 0⟩, ⟨[], [], []⟩)
  sd := (⟨true, 0⟩, ⟨[], [], [], [], []⟩)
  openFile := (true, 0)
  listed := some []
  errno := 0
  fileSize := content.length
  lastModified := 0
  peValues := []
  allocates := true
  read offset size :=
    ((clientRead (unevenFile content) 0 offset size fun _ => 0).1,
      (List.range (clientRead (unevenFile content) 0 offset size fun _ => 0).1.toNat).map
        (clientRead (unevenFile content) 0 offset size fun _ => 0).2.dest)
  shares := (⟨true, 0⟩, [])
  winErrstr _ := []
  ntErrstr _ := []
  strerror _ := []
  wildcards _ _ := true

theorem unevenAsset_served (content : ByteString) :
    ServedBy (unevenAsset content) (unevenFile content) content :=
  ⟨rfl, rfl, fun _ _ => ⟨0, fun _ => 0, rfl⟩⟩

theorem unevenFile_complete (content : ByteString) : Complete (unevenFile content) content := by
  refine ⟨unevenFile_reads content, fun offset _ => Int.natCast_nonneg offset, ?_⟩
  intro call turn position size
  refine ⟨_, rfl, fun empty => ?_⟩
  have positive : 0 < if turn = 0 then 3 else 2 := by split <;> decide
  have length := congrArg List.length empty
  rw [List.length_take, List.length_drop, List.length_nil] at length
  omega

/-- A session for the calls. -/
def readerSession : Session := ⟨1, text "host", ⟨[], [], [], []⟩⟩

/-- The rest of a file from its fourth byte on. -/
theorem restOfFile_answers :
    slice (text "abcdefgh") (decimalValue (text "3")) (decimalValue []) = text "defgh" ∧
      Readable (unevenAsset (text "abcdefgh")) (some readerSession) (text "f") (text "abcdefgh")
        (decimalValue (text "3")) (decimalValue []) ∧
      AnswersSlice
        (traceReadFile (unevenAsset (text "abcdefgh")) (some readerSession)
          (.smbReadFile (text "1") (text "f") [] (text "3")))
        (text "abcdefgh") (decimalValue (text "3")) (decimalValue []) := by
  have readable : Readable (unevenAsset (text "abcdefgh")) (some readerSession) (text "f")
      (text "abcdefgh") (decimalValue (text "3")) (decimalValue []) :=
    .inr (.inr ⟨by decide, by decide, rfl, fun _ => by decide⟩)
  refine ⟨by decide, readable, ?_⟩
  exact (readFile_answers_iff (unevenAsset_served _) (unevenFile_complete _) (by decide)
    (text "1") (text "f") (by decide +kernel) (List.forall_mem_nil _)).mpr readable

/-- For the rest of a file of two bytes from its fourth byte on, nearly all of memory is asked
for. -/
theorem behindEnd_not_answered :
    (traceReadFile (unevenAsset (text "ab")) (some readerSession)
        (.smbReadFile (text "1") (text "f") [] (text "3"))).requested = some (2 ^ 64 - 1) ∧
      ¬AnswersSlice
        (traceReadFile (unevenAsset (text "ab")) (some readerSession)
          (.smbReadFile (text "1") (text "f") [] (text "3")))
        (text "ab") (decimalValue (text "3")) (decimalValue []) := by
  have requested : (traceReadFile (unevenAsset (text "ab")) (some readerSession)
      (.smbReadFile (text "1") (text "f") [] (text "3"))).requested = some (2 ^ 64 - 1) := by
    have offset : stoll (text "3") = some 3 := by decide +kernel
    have size : stoll (text "0") = some 0 := by decide +kernel
    have traced := @traceSmbFile_eq _ _ _ (unevenAsset_served (text "ab"))
      (unevenFile_complete _) (by decide) 3 0 (by decide)
    have present : hasSession (some readerSession) = true := by decide
    have path : text "f" ≠ [] := by decide
    have digit : text "3" ≠ [] := by decide
    simp only [traceReadFile, present, Bool.not_true, Bool.false_eq_true, if_false, path, digit,
      if_true, offset, size, show ¬(3 : Int) < 0 by decide, lt_irrefl, Int.toNat_zero,
      show (3 : Int).toNat = 3 from rfl, traced]
    rfl
  refine ⟨requested, fun answers => ?_⟩
  have bounded := answers.2 _ requested
  have small : max (decimalValue []) (text "ab").length = 2 := by decide
  omega

end Cdcm.Backend.Smb
