import Cdcm.Backend.Smb.ReadFile
import Cdcm.Backend.Smb.WildcardPatterns

/-!
# Listing a directory

`smb_client::list_dir` walks over the entries that `smbc_getdents` has left in a buffer, as
often as there are more.  `SMB_List_Dir::act` answers with the entries whose names match.
-/

namespace Cdcm.Backend.Smb

open Json Protocol SessionsCache Wildcards Glob

/-! ## The code -/

/-- `smbc_dirent`, with the name as a C string. -/
structure SmbcDirent where
  smbcType : Nat
  dirlen : BitVec 32
  name : ByteString

/-- What a call of `smbc_getdents` returns, and what a pointer into the buffer points to. -/
structure Dents where
  dirc : Int
  dirent : Int → SmbcDirent

/-- The element of `dirents` for an entry, if there is one. -/
def SmbcDirent.pushed (entry : SmbcDirent) : Option Dirent :=
  if entry.smbcType = 7 ∨ entry.smbcType = 8 then
    some ⟨entry.name, if entry.smbcType = 7 then text "DIR" else text "FILE"⟩
  else none

/-- The loop over the entries in a buffer, for some turns at most. -/
def walkEntries (dirent : Int → SmbcDirent) (turns : Nat) (dirp dirc : Int)
    (dirents : List Dirent) : Option (List Dirent) :=
  if dirc > 0 then
    match turns with
    | 0 => none
    | turns + 1 =>
        let dsize := (dirent dirp).dirlen.toInt
        walkEntries dirent turns (dirp + dsize) (dirc - dsize)
          (dirents ++ (dirent dirp).pushed.toList)
  else some dirents

/-- The loop over the calls of `smbc_getdents`, with `dirp` at the start of a new buffer. -/
def listEntries (turns : Nat) (getdents : Nat → Dents) :
    Nat → Nat → List Dirent → Option (Bool × List Dirent)
  | 0, _, _ => none
  | calls + 1, call, dirents =>
      let dents := getdents call
      if dents.dirc = 0 then some (true, dirents)
      else if dents.dirc < 0 then some (false, dirents)
      else
        (walkEntries dents.dirent turns 0 dents.dirc dirents).bind fun dirents =>
          listEntries turns getdents calls (call + 1) dirents

/-- `smb_client::list_dir`, for some calls and turns at most. -/
def listDir (calls turns : Nat) (init opendir : Int) (getdents : Nat → Dents) :
    Option (Bool × List Dirent) :=
  if init < 0 ∨ opendir < 1 then some (false, []) else listEntries turns getdents calls 0 []

/-! ## What is listed -/

/-- Entries lie one behind the other, from a place on. -/
def LaidAt (dirent : Int → SmbcDirent) : Int → List SmbcDirent → Prop
  | _, [] => True
  | dirp, entry :: entries =>
      dirent dirp = entry ∧ 0 < entry.dirlen.toInt ∧
        LaidAt dirent (dirp + entry.dirlen.toInt) entries

/-- The room that entries take. -/
def room (entries : List SmbcDirent) : Int := (entries.map fun entry => entry.dirlen.toInt).sum

/-- A call leaves these entries, at least one, in the buffer. -/
structure Dents.Holds (dents : Dents) (entries : List SmbcDirent) : Prop where
  some : entries ≠ []
  laid : LaidAt dents.dirent 0 entries
  whole : dents.dirc = room entries

/-- A server hands over a directory in chunks. -/
structure Serves (getdents : Nat → Dents) (chunks : List (List SmbcDirent)) : Prop where
  holds : ∀ call chunk, chunks[call]? = some chunk → (getdents call).Holds chunk
  ends : (getdents chunks.length).dirc = 0

section Listing

variable {dirent : Int → SmbcDirent} {dirp : Int} {entries : List SmbcDirent} {turns : Nat}

theorem room_nonneg (laid : LaidAt dirent dirp entries) : 0 ≤ room entries := by
  induction entries generalizing dirp with
  | nil => exact Int.le_refl _
  | cons entry entries ih =>
      obtain ⟨-, positive, behind⟩ := laid
      have rest := ih behind
      rw [room, List.map_cons, List.sum_cons]
      rw [room] at rest
      omega

theorem room_cons (entry : SmbcDirent) (entries : List SmbcDirent) :
    room (entry :: entries) = entry.dirlen.toInt + room entries := by
  rw [room, List.map_cons, List.sum_cons, room]

/-- The walk pushes the entries of the buffer, with a turn for each of them. -/
theorem walkEntries_laid (laid : LaidAt dirent dirp entries) (dirents : List Dirent) :
    walkEntries dirent turns dirp (room entries) dirents =
      if entries.length ≤ turns then some (dirents ++ entries.filterMap SmbcDirent.pushed)
      else none := by
  induction entries generalizing turns dirp dirents with
  | nil =>
      rw [walkEntries.eq_def, if_neg (by simp [room]), List.length_nil, if_pos (Nat.zero_le _),
        List.filterMap_nil, List.append_nil]
  | cons entry entries ih =>
      obtain ⟨rfl, positive, behind⟩ := laid
      have rest := room_nonneg behind
      rw [walkEntries.eq_def, room_cons, if_pos (by omega)]
      cases turns with
      | zero => rw [if_neg (by simp)]
      | succ turns =>
          dsimp only
          rw [add_sub_cancel_left, ih behind, List.append_assoc, List.length_cons]
          simp only [Nat.add_le_add_iff_right]
          congr 3
          cases pushed : (dirent dirp).pushed with
          | none => rw [List.filterMap_cons_none pushed, Option.toList_none, List.nil_append]
          | some found =>
              rw [List.filterMap_cons_some pushed, Option.toList_some, List.singleton_append]

/-- All chunks are listed, with a call for each of them and one for the end. -/
theorem listEntries_serves {getdents : Nat → Dents} {chunks : List (List SmbcDirent)}
    (serves : Serves getdents chunks) {calls call : Nat} (before : call ≤ chunks.length)
    (dirents : List Dirent) :
    listEntries turns getdents calls call dirents =
      if chunks.length - call < calls ∧ ∀ chunk ∈ chunks.drop call, chunk.length ≤ turns then
        some (true, dirents ++ (chunks.drop call).flatten.filterMap SmbcDirent.pushed)
      else none := by
  induction calls generalizing call dirents with
  | zero => rw [listEntries, if_neg fun enough => Nat.not_lt_zero _ enough.1]
  | succ calls ih =>
      rw [listEntries]
      rcases Nat.lt_or_eq_of_le before with inside | rfl
      · have isChunk := List.getElem?_eq_getElem inside
        have holds := serves.holds call _ isChunk
        obtain ⟨entry, entries, split⟩ := List.exists_cons_of_ne_nil holds.some
        have positive : 0 < room chunks[call] := by
          have laid := holds.laid
          rw [split] at laid ⊢
          have rest := room_nonneg laid.2.2
          have length := laid.2.1
          rw [room_cons]
          omega
        have next : chunks.drop call = chunks[call] :: chunks.drop (call + 1) :=
          List.drop_eq_getElem_cons inside
        rw [if_neg (by rw [holds.whole]; omega), if_neg (by rw [holds.whole]; omega), holds.whole,
          walkEntries_laid holds.laid, next]
        by_cases fits : chunks[call].length ≤ turns
        · rw [if_pos fits, Option.bind_some, ih inside]
          refine if_congr ?_ ?_ rfl
          · rw [List.forall_mem_cons, and_iff_right fits]
            exact and_congr_left fun _ => by omega
          · rw [List.flatten_cons, List.filterMap_append, List.append_assoc]
        · rw [if_neg fits, Option.bind_none, if_neg]
          exact fun enough => fits (enough.2 _ List.mem_cons_self)
      · rw [if_pos serves.ends, if_pos ⟨by omega, by simp⟩]
        simp

end Listing

/-- `list_dir` lists the files and directories of the server, in their order and each of them
once, however the server divides them, and ends with success. -/
theorem listDir_serves {getdents : Nat → Dents} {chunks : List (List SmbcDirent)}
    {init opendir : Int} (serves : Serves getdents chunks) (isInit : 0 ≤ init)
    (opens : 1 ≤ opendir) (calls turns : Nat) :
    listDir calls turns init opendir getdents =
      if chunks.length < calls ∧ ∀ chunk ∈ chunks, chunk.length ≤ turns then
        some (true, chunks.flatten.filterMap SmbcDirent.pushed)
      else none := by
  rw [listDir, if_neg (by omega), listEntries_serves serves (Nat.zero_le _)]
  simp

/-! ## The answer -/

/-- The asset has the listing of a server, and names are matched as the code does it. -/
structure ListedBy (asset : Asset) (init opendir : Int) (getdents : Nat → Dents) : Prop where
  listed : ∃ calls turns ok dirents,
    listDir calls turns init opendir getdents = some (ok, dirents) ∧
      asset.listed = if ok then some dirents else none
  wildcards : ∀ name pattern result,
    wildcardsMatch (.char .extended) charEqualTo name pattern = .ok result →
      asset.wildcards name pattern = result.res

/-- The action answers with the files and directories of the server in their order: with all
of them where no pattern is given, else only with those whose names are words of the pattern,
and with all such where its alternatives can match in one way only. -/
theorem smbListDir_lists {asset : Asset} {sess : Option Session} {getdents : Nat → Dents}
    {chunks : List (List SmbcDirent)} {init opendir : Int} {id param pattern : ByteString}
    (listedBy : ListedBy asset init opendir getdents) (serves : Serves getdents chunks)
    (isInit : 0 ≤ init) (opens : 1 ≤ opendir) (session : hasSession sess) (path : param ≠ []) :
    ∃ keeps : Dirent → Bool,
      actSmbListDir asset sess (.smbListDir id param pattern) =
        ⟨.succeeded, .success (.array (((chunks.flatten.filterMap SmbcDirent.pushed).filter
          keeps).map Dirent.toValue))⟩ ∧
      (pattern = [] → ∀ entry, keeps entry) ∧
      (pattern ≠ [] → ∀ entry, keeps entry →
        entry.name ∈ ((Cards.char .extended).pattern charEqualTo pattern).language) ∧
      (((Cards.char .extended).pattern charEqualTo pattern).Rigid → ∀ entry : Dirent,
        entry.name ∈ ((Cards.char .extended).pattern charEqualTo pattern).language →
          keeps entry) := by
  obtain ⟨calls, turns, ok, dirents, isListing, isListed⟩ := listedBy.listed
  rw [listDir_serves serves isInit opens] at isListing
  obtain ⟨-, same⟩ := Option.ite_none_right_eq_some.mp isListing
  obtain ⟨rfl, rfl⟩ := Prod.mk.inj (Option.some.inj same)
  rw [if_pos rfl] at isListed
  refine ⟨fun entry => pattern = [] ∨ asset.wildcards entry.name pattern, ?_, ?_, ?_, ?_⟩
  · rw [actSmbListDir, session, Bool.not_true, if_neg Bool.false_ne_true]
    dsimp only
    rw [if_neg path, isListed]
    by_cases empty : pattern = []
    · have all : (chunks.flatten.filterMap SmbcDirent.pushed).filter (fun entry =>
          pattern = [] ∨ asset.wildcards entry.name pattern) =
            chunks.flatten.filterMap SmbcDirent.pushed :=
        List.filter_eq_self.mpr fun _ _ => decide_eq_true (.inl empty)
      rw [all]
      simp only [empty, ne_eq, not_true_eq_false, if_false]
    · simp [empty]
  · exact fun empty entry => decide_eq_true (.inl empty)
  · intro given entry keeps
    obtain ⟨result, isResult, -, sound, -⟩ := wildcardsMatch_language
      (by decide : (Cards.char .extended).Distinct) charEqualTo entry.name pattern
    have found := (of_decide_eq_true keeps).resolve_left given
    rw [listedBy.wildcards _ _ _ isResult] at found
    exact (sound found).2
  · intro rigid entry member
    obtain ⟨result, isResult, -, -, complete⟩ := wildcardsMatch_language
      (by decide : (Cards.char .extended).Distinct) charEqualTo entry.name pattern
    refine decide_eq_true (.inr ?_)
    rw [listedBy.wildcards _ _ _ isResult]
    exact complete rigid member

/-! ## A directory -/

def entryOf (smbcType : Nat) (name : String) : SmbcDirent := ⟨smbcType, 32, text name⟩

/-- A directory with a share in it, which is not listed. -/
def logsChunks : List (List SmbcDirent) :=
  [[entryOf 7 "logs", entryOf 8 "a.txt"], [entryOf 3 "share", entryOf 8 "b.txt"]]

def logsDents (call : Nat) : Dents :=
  match logsChunks[call]? with
  | none => ⟨0, fun _ => entryOf 0 ""⟩
  | some chunk => ⟨32 * chunk.length, fun dirp => chunk.getD (dirp / 32).toNat (entryOf 0 "")⟩

theorem logsDents_serves : Serves logsDents logsChunks where
  holds call chunk isChunk := by
    rcases call with _ | _ | call
    · obtain rfl := Option.some.inj isChunk
      exact ⟨by simp, ⟨rfl, by decide, rfl, by decide, trivial⟩, by decide⟩
    · obtain rfl := Option.some.inj isChunk
      exact ⟨by simp, ⟨rfl, by decide, rfl, by decide, trivial⟩, by decide⟩
    · cases isChunk
  ends := rfl

/-- A machine with this directory. -/
def logsAsset : Asset :=
  { unevenAsset [] with
    listed := some (logsChunks.flatten.filterMap SmbcDirent.pushed)
    wildcards := fun name pattern =>
      match wildcardsMatch (.char .extended) charEqualTo name pattern with
      | .ok result => result.res
      | .error _ => false }

theorem logsAsset_listed : ListedBy logsAsset 0 1 logsDents where
  listed := by
    refine ⟨3, 2, true, _, ?_, rfl⟩
    rw [listDir_serves logsDents_serves (by decide) (by decide), if_pos (by decide)]
  wildcards := by
    intro name pattern result isResult
    simp only [logsAsset, isResult]

/-- The names in one of two alternatives are listed. -/
theorem smbListDir_lists_logs : ∃ keeps : Dirent → Bool,
    actSmbListDir logsAsset (some readerSession)
        (.smbListDir (text "1") (text "tmp") (text "(a.txt|logs)")) =
      ⟨.succeeded, .success (.array (((logsChunks.flatten.filterMap SmbcDirent.pushed).filter
        keeps).map Dirent.toValue))⟩ ∧
    (text "(a.txt|logs)" = [] → ∀ entry, keeps entry) ∧
    (text "(a.txt|logs)" ≠ [] → ∀ entry, keeps entry → entry.name ∈
      ((Cards.char .extended).pattern charEqualTo (text "(a.txt|logs)")).language) ∧
    (((Cards.char .extended).pattern charEqualTo (text "(a.txt|logs)")).Rigid →
      ∀ entry : Dirent, entry.name ∈
        ((Cards.char .extended).pattern charEqualTo (text "(a.txt|logs)")).language →
          keeps entry) :=
  smbListDir_lists logsAsset_listed logsDents_serves (by decide) (by decide) (by decide)
    (by decide)

end Cdcm.Backend.Smb
