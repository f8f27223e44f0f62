import Cdcm.SessionsCache.Lifetime

/-!
# Maintenance of the broker

`maintenance_function` cleans the session cache and then removes the downloaded files
of all sessions that are gone: those whose names do not begin with the id of a session
of the cache.  Other processes use the cache in between.
-/

namespace Cdcm.SessionsCache

open OrderedIndex MultiIndex Machine

/-- `get_sessions_id_list`. -/
def SharedMemSessionsCache.getSessionsIdList (cache : SharedMemSessionsCache) :
    List ByteString :=
  (cache.map.index Tag.id).map fun node => node.val.session.uuid

theorem length_dashed (sizes : List Nat) {digits : ByteString}
    (enough : sizes.sum ≤ digits.length) :
    (dashed sizes digits).length = digits.length + sizes.length := by
  induction sizes generalizing digits with
  | nil => rfl
  | cons size sizes ih =>
      rw [List.sum_cons] at enough
      rw [dashed, List.length_append, List.length_cons, List.length_cons,
        ih (by rw [List.length_drop]; omega), List.length_take, List.length_drop]
      omega

/-- All ids are of one length. -/
theorem UuidText.length_canonical (uuid : Uuid) :
    (UuidText.canonical.toString uuid).length = 36 := by
  rw [UuidText.canonical, length_dashed _ (by rw [length_hexOfNat]; decide), length_hexOfNat]
  rfl

/-- The list has the ids of the sessions that the map holds. -/
theorem Represents.mem_getSessionsIdList {uuidText : UuidText} {cache : SharedMemSessionsCache}
    {map : SessionMap} (represents : Represents uuidText cache map) (id : ByteString) :
    id ∈ cache.getSessionsIdList ↔ ∃ session : Session, session.idstr uuidText = id ∧
      (map.heldUntil uuidText session).isSome = true := by
  have stored := represents.mem_iff
  simp only [SharedMemSessionsCache.getSessionsIdList, List.mem_map, Container.mem_index,
    SessionMap.heldUntil, Option.isSome_map, Option.isSome_iff_exists,
    Option.filter_eq_some_iff, decide_eq_true_iff]
  constructor
  · rintro ⟨node, member, rfl⟩
    obtain ⟨id, entry, found, isElement⟩ := (stored node.val).mp ⟨node, member, rfl⟩
    have sameId := represents.idstr_eq found
    refine ⟨entry.session, ?_, entry, sameId ▸ found, rfl⟩
    rw [← isElement]
    rfl
  · rintro ⟨_, rfl, entry, found, rfl⟩
    obtain ⟨node, member, isElement⟩ := (stored _).mpr ⟨_, entry, found, rfl⟩
    refine ⟨node, member, ?_⟩
    rw [isElement]
    rfl

/-- Behind a run, it has the ids of the sessions that are alive. -/
theorem mem_getSessionsIdList_run {uuidText : UuidText} {idle : Nat} {ops : List Op}
    {cache : SharedMemSessionsCache}
    (run : Run (step uuidText)
      (fun state op => FreshId uuidText state op ∧ ReadsKeys state op) (.empty idle) ops cache)
    (id : ByteString) :
    id ∈ cache.getSessionsIdList ↔ LiveId uuidText idle ops id := by
  obtain ⟨_, represents⟩ := represents_run run
  simp only [represents.mem_getSessionsIdList, SessionMap.heldUntil_foldl,
    Lease.isSome_run_iff, LiveId]

/-- The operations of a run lead to its last state. -/
theorem foldl_perform_run {uuidText : UuidText} {guard : SharedMemSessionsCache → Op → Prop}
    {start cache : SharedMemSessionsCache} {ops : List Op}
    (run : Run (step uuidText) guard start ops cache) :
    ops.foldl (fun cache op => (perform uuidText cache op).1) start = cache := by
  induction run with
  | nil => rfl
  | snoc _ _ stepped ih =>
      rw [List.foldl_concat, ih]
      exact Option.some.inj stepped

end Cdcm.SessionsCache

namespace Cdcm.Frontend

open SessionsCache OrderedIndex MultiIndex Machine

/-- The string that a number of characters of a C string make.  Characters behind its
terminator are not there. -/
def cPrefix (length : Nat) (characters : ByteString) : Option ByteString :=
  if length ≤ characters.length + 1 then some ((characters ++ [0]).take length) else none

/-- Enough characters of a name give back what it begins with. -/
theorem cPrefix_append (front rest : ByteString) :
    cPrefix front.length (front ++ rest) = some front := by
  rw [cPrefix, if_pos (by rw [List.length_append]; omega), List.append_assoc,
    List.take_left]

/-- The loop of `maintenance_function` over the files of the directory: those that are
left.  `remove` throws when the file stays, which ends the broker. -/
def removeStale (uuidStrLen : Nat) (removes : ByteString → Bool)
    (sessionList : List ByteString) : List ByteString → Option (List ByteString)
  | [] => some []
  | entry :: entries => do
      let id ← cPrefix uuidStrLen entry
      if id ∈ sessionList then
        let left ← removeStale uuidStrLen removes sessionList entries
        return entry :: left
      else if removes entry then removeStale uuidStrLen removes sessionList entries
      else none

/-- `maintenance_function`, with what other processes do between its two halves. -/
def maintenanceFunction (uuidText : UuidText) (drawn : Uuid) (removes : ByteString → Bool)
    (now : Int) (others : List Op) (cache : SharedMemSessionsCache)
    (files : List ByteString) : Option (List ByteString) :=
  let uuidStrLen := (uuidText.toString drawn).length
  let cache := others.foldl (fun cache op => (perform uuidText cache op).1) (cache.clean now).1
  removeStale uuidStrLen removes cache.getSessionsIdList files

/-- The loop ends when every name is long enough and every stale file can be removed. -/
theorem removeStale_eq_some_iff {uuidStrLen : Nat} {removes : ByteString → Bool}
    {sessionList files left : List ByteString} :
    removeStale uuidStrLen removes sessionList files = some left ↔
      (∀ name ∈ files, ∃ id, cPrefix uuidStrLen name = some id ∧
        (id ∈ sessionList ∨ removes name = true)) ∧
      left = files.filter fun name =>
        (cPrefix uuidStrLen name).any fun id => decide (id ∈ sessionList) := by
  induction files generalizing left with
  | nil =>
      rw [removeStale, Option.some.injEq]
      exact ⟨fun same => ⟨by simp, same.symm⟩, fun both => both.2.symm⟩
  | cons entry entries ih =>
      rw [removeStale, List.forall_mem_cons, List.filter_cons]
      cases read : cPrefix uuidStrLen entry with
      | none => simp
      | some id =>
          by_cases live : id ∈ sessionList
          · simp only [Option.bind_eq_bind, Option.bind_some, live, if_true,
              Option.bind_eq_some_iff, Option.pure_def, Option.some.injEq, ih, exists_eq_left',
              true_or, true_and, Option.any_some, decide_true]
            constructor
            · rintro ⟨kept, ⟨readable, rfl⟩, rfl⟩
              exact ⟨readable, rfl⟩
            · rintro ⟨readable, rfl⟩
              exact ⟨_, ⟨readable, rfl⟩, rfl⟩
          · cases gone : removes entry with
            | true => simp [live, ih]
            | false => simp [live]

/-- Whose downloads are kept: behind any use of the cache by whole operations with fresh ids,
each of which reads its key and gets its memory, and so between the clean and the list,
`maintenance_function` ends exactly if every file name is long enough to begin with an id and
the file system removes every file that does not begin with the id of a session that is alive
when the list is taken; and then it leaves exactly the files of sessions that are. -/
theorem maintenance_keeps_downloads {uuidText : UuidText} {idle : Nat}
    {ops others : List Op} {now : Int} {cache listed : SharedMemSessionsCache}
    (begun : Run (step uuidText)
      (fun state op => FreshId uuidText state op ∧ ReadsKeys state op) (.empty idle) ops cache)
    (cleaned : Run (step uuidText)
      (fun state op => FreshId uuidText state op ∧ ReadsKeys state op)
      (cache.clean now).1 others listed)
    (drawn : Uuid) (removes : ByteString → Bool) (files : List ByteString) :
    ((maintenanceFunction uuidText drawn removes now others cache files).isSome = true ↔
      ∀ name ∈ files, ∃ id, cPrefix (uuidText.toString drawn).length name = some id ∧
        (LiveId uuidText idle (ops ++ .clean now :: others) id ∨ removes name = true)) ∧
    ∀ left, maintenanceFunction uuidText drawn removes now others cache files = some left →
      ∀ name, name ∈ left ↔ name ∈ files ∧
        ∃ id, cPrefix (uuidText.toString drawn).length name = some id ∧
          LiveId uuidText idle (ops ++ .clean now :: others) id := by
  have cleaning : Run (step uuidText)
      (fun state op => FreshId uuidText state op ∧ ReadsKeys state op)
      cache (.clean now :: others) listed := .cons ⟨trivial, trivial⟩ rfl cleaned
  have listedIds := mem_getSessionsIdList_run (begun.append cleaning)
  rw [maintenanceFunction]
  simp only [foldl_perform_run cleaned, ← listedIds]
  constructor
  · rw [Option.isSome_iff_exists]
    simp only [removeStale_eq_some_iff, exists_and_left, exists_eq, and_true]
  · intro left swept name
    obtain ⟨_, rfl⟩ := removeStale_eq_some_iff.mp swept
    rw [List.mem_filter, Option.any_eq_true]
    simp only [decide_eq_true_iff]

/-- Log-ins to `h` and, 50 seconds later, to `g`. -/
def twoLogins : List Op :=
  [.add 0 aliceSession, .add 50 ⟨2, text "g", ⟨[], text "bob", text "b", []⟩⟩]

/-- The name of a download in the session of a UUID. -/
def downloadName (uuid : Uuid) : ByteString := UuidText.canonical.toString uuid ++ text ".exe"

/-- Of two sessions, the one that was started early enough loses its download. -/
theorem maintenance_keeps_downloads_logins :
    ∃ cache, Run (step .canonical)
        (fun state op => FreshId .canonical state op ∧ ReadsKeys state op) (.empty 60)
        twoLogins cache ∧
      maintenanceFunction .canonical 7 (fun _ => true) 100 [] cache
        [downloadName 1, downloadName 2] = some [downloadName 2] ∧
      LiveId .canonical 60 (twoLogins ++ [.clean 100]) (UuidText.canonical.toString 2) ∧
      ¬ LiveId .canonical 60 (twoLogins ++ [.clean 100]) (UuidText.canonical.toString 1) := by
  refine (Run.exists_of_exec (fun cache : SharedMemSessionsCache =>
      decide (maintenanceFunction .canonical 7 (fun _ => true) 100 [] cache
        [downloadName 1, downloadName 2] = some [downloadName 2]))
    (by decide +kernel)).imp fun cache ⟨run, checked⟩ => ⟨run, ?_⟩
  have kept := of_decide_eq_true checked
  have names := (maintenance_keeps_downloads run .nil 7 (fun _ => true)
    [downloadName 1, downloadName 2]).2 _ kept
  have readsId : ∀ uuid, cPrefix (UuidText.canonical.toString 7).length (downloadName uuid) =
      some (UuidText.canonical.toString uuid) := by
    intro uuid
    rw [UuidText.length_canonical, ← UuidText.length_canonical uuid]
    exact cPrefix_append _ _
  refine ⟨kept, ?_, fun live => ?_⟩
  · obtain ⟨-, id, read, live⟩ := (names (downloadName 2)).mp List.mem_cons_self
    rw [readsId 2] at read
    exact Option.some.inj read ▸ live
  · have stays := (names (downloadName 1)).mpr
      ⟨List.mem_cons_self, _, readsId 1, live⟩
    revert stays
    decide +kernel

end Cdcm.Frontend
