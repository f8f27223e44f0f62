import Cdcm.SessionsCache.SharedMem

/-!
# Adding a session, all or nothing

`add` erases the session of the same remote before it makes room for the new one,
so it depends on the allocations, the remote and the id whether a call leaves what
its result says.
-/

namespace Cdcm.SessionsCache

open OrderedIndex MultiIndex

namespace SharedMemSessionsCache

variable (uuidText : UuidText)

/-- What a successful `add` promises: the session is found under both keys, and the
sessions of other remotes are still stored. -/
structure Added (cache next : SharedMemSessionsCache) (session : Session) : Prop where
  byId : ∀ now, (next.getSessionBy uuidText .id now (session.idstr uuidText)).2 = some session
  byRemote : ∀ now, (next.getSessionBy uuidText .remote now session.remote).2 = some session
  others : ∀ node ∈ cache.map, node.val.session.remote ≠ session.remote → node ∈ next.map

/-- A call of `add` keeps its promise, or it fails and changes nothing. -/
def AddsAtomically (cache : SharedMemSessionsCache) (now : Int) (allocation : Allocation)
    (session : Session) : Prop :=
  if (cache.add uuidText now allocation session).2 = true then
    Added uuidText cache (cache.add uuidText now allocation session).1 session
  else ∀ node, node ∈ (cache.add uuidText now allocation session).1.map ↔ node ∈ cache.map

/-- When the allocations for the new session fail, there is no session to replace;
when they succeed, the remote is a C string and no session of another remote has the
id. -/
def MayAdd (cache : SharedMemSessionsCache) (session : Session) : Allocation → Prop
  | .failsAtLookup => True
  | .failsAtInsert => ∀ node ∈ cache.map, node.val.session.remote ≠ cStr session.remote
  | .succeeds => 0 ∉ session.remote ∧ ∀ node ∈ cache.map,
      node.val.session.uuid = session.idstr uuidText →
        node.val.session.remote = session.remote

variable {uuidText} {cache : SharedMemSessionsCache} {session : Session}

/-- A look-up returns the session that is stored under its key. -/
theorem getSessionBy_of_mem {tag : KeyTag} {key : ByteString} {now : Int}
    {node : Node SharedMemSessionElement} (member : node ∈ cache.map)
    (hasKey : keyOf tag node.val = cStr key) :
    (cache.getSessionBy uuidText tag now key).2 = ofShared uuidText node.val.session := by
  have found : cache.find tag key = some node := find_eq_some.mpr ⟨member, hasKey⟩
  rw [getSessionBy, found]
  rfl

/-- What a look-up returns is stored under its key. -/
theorem exists_of_getSessionBy {tag : KeyTag} {key : ByteString} {now : Int}
    (isFound : (cache.getSessionBy uuidText tag now key).2 = some session) :
    ∃ node ∈ cache.map, keyOf tag node.val = cStr key ∧
      ofShared uuidText node.val.session = some session := by
  cases found : cache.find tag key with
  | none =>
      rw [getSessionBy, found] at isFound
      contradiction
  | some node =>
      obtain ⟨member, hasKey⟩ := find_eq_some.mp found
      rw [getSessionBy_of_mem member hasKey] at isFound
      exact ⟨node, member, hasKey, isFound⟩

theorem remote_of_ofShared {shared : SharedMemSession}
    (converted : ofShared uuidText shared = some session) : shared.remote = session.remote := by
  simp only [ofShared, Option.bind_eq_bind, Option.bind_eq_some_iff, Option.pure_def,
    Option.some.injEq] at converted
  obtain ⟨uuid, _, rfl⟩ := converted
  rfl

theorem added_of_mayAdd (lawful : uuidText.Lawful)
    (nulFreeText : ∀ uuid, 0 ∉ uuidText.toString uuid) (now : Int)
    (may : cache.MayAdd uuidText session .succeeds) :
    Added uuidText cache (cache.add uuidText now .succeeds session).1 session := by
  obtain ⟨nulFree, ownId⟩ := may
  have wholeRemote := cStr_of_zero_not_mem nulFree
  have wholeId : cStr (session.idstr uuidText) = session.idstr uuidText :=
    cStr_of_zero_not_mem (nulFreeText session.uuid)
  have accepted := @insert_accepted uuidText cache now session (.of_nulFree nulFree) ownId
  have stored := (Container.mem_insert accepted).mpr (.inl rfl)
  have back := ofShared_toShared uuidText lawful session
  constructor
  · intro later
    rw [getSessionBy_of_mem stored, back]
    exact wholeId.symm
  · intro later
    rw [getSessionBy_of_mem stored, back]
    exact wholeRemote.symm
  · intro node member otherRemote
    apply (Container.mem_insert accepted).mpr
    right
    exact (mem_evict _ node).mpr ⟨member, by rwa [wholeRemote]⟩

theorem mayAdd_of_added (nulFreeText : ∀ uuid, 0 ∉ uuidText.toString uuid) {now : Int}
    (added : Added uuidText cache (cache.add uuidText now .succeeds session).1 session) :
    cache.MayAdd uuidText session .succeeds := by
  have wholeId : cStr (session.idstr uuidText) = session.idstr uuidText :=
    cStr_of_zero_not_mem (nulFreeText session.uuid)
  constructor
  · obtain ⟨node, _, hasKey, converted⟩ := exists_of_getSessionBy (added.byRemote now)
    have sameRemote := remote_of_ofShared converted
    exact cStr_eq_self_iff.mp (hasKey.symm.trans sameRemote)
  · intro node member sameId
    by_contra otherRemote
    have stays := added.others node member otherRemote
    obtain ⟨found, isMember, hasKey, converted⟩ := exists_of_getSessionBy (added.byId now)
    obtain rfl : node = found := by
      apply Container.eq_of_key_eq unique_id stays isMember
      exact sameId.trans (hasKey.trans wholeId).symm
    exact otherRemote (remote_of_ofShared converted)

/-- A failed insertion leaves the evicted cache. -/
theorem addsAtomically_failsAtInsert (now : Int) :
    cache.AddsAtomically uuidText now .failsAtInsert session ↔
      cache.MayAdd uuidText session .failsAtInsert := by
  have failed : cache.add uuidText now .failsAtInsert session =
      (cache.evict session.remote, false) := rfl
  rw [AddsAtomically, failed, if_neg Bool.false_ne_true, MayAdd]
  constructor
  · intro unchanged node member sameRemote
    exact ((mem_evict _ node).mp ((unchanged node).mpr member)).2 sameRemote
  · intro absent node
    rw [mem_evict]
    constructor
    · exact And.left
    · intro member
      exact ⟨member, absent node member⟩

/-- `add` is all or nothing exactly when nothing that it has already erased is missed
afterwards: for every content, every session and every allocation that fails. -/
theorem add_atomic_iff (lawful : uuidText.Lawful)
    (nulFreeText : ∀ uuid, 0 ∉ uuidText.toString uuid) (now : Int) (allocation : Allocation) :
    cache.AddsAtomically uuidText now allocation session ↔
      cache.MayAdd uuidText session allocation := by
  cases allocation with
  | failsAtLookup =>
      have failed : cache.add uuidText now .failsAtLookup session = (cache, false) := rfl
      rw [AddsAtomically, failed, if_neg Bool.false_ne_true]
      exact ⟨fun _ => trivial, fun _ _ => Iff.rfl⟩
  | failsAtInsert => exact addsAtomically_failsAtInsert now
  | succeeds =>
      have reports : (cache.add uuidText now .succeeds session).2 = true := rfl
      rw [AddsAtomically, if_pos reports]
      constructor
      · exact mayAdd_of_added nulFreeText
      · exact added_of_mayAdd lawful nulFreeText now

/-! ## A login that fails -/

/-- Two sessions for the host `h`. -/
def loginOf (username : String) (uuid : Uuid) : Session :=
  ⟨uuid, text "h", ⟨[], text username, text "pw", []⟩⟩

/-- The cache after the first login. -/
def loggedIn : SharedMemSessionsCache :=
  ((empty 60).add .canonical 0 .succeeds (loginOf "alice" 1)).1

/-- Something is stored, all of it for that host. -/
theorem loggedIn_stored : (∃ node, node ∈ loggedIn.map) ∧
    ∀ node ∈ loggedIn.map, node.val.session.remote = text "h" := by
  have found : (loggedIn.map.find Tag.remote (text "h")).isSome = true := by decide +kernel
  have stored : ∀ node ∈ loggedIn.map.index Tag.id, node.val.session.remote = text "h" := by
    decide +kernel
  obtain ⟨node, isFound⟩ := Option.isSome_iff_exists.mp found
  refine ⟨⟨node, Container.mem_of_find isFound⟩, fun node member => stored node ?_⟩
  exact (@Container.mem_index _ schema loggedIn.map node Tag.id).mpr member

/-- A second login to the same host replaces the first one, all or nothing. -/
theorem add_atomic_iff_login :
    (∃ node ∈ loggedIn.map, node.val.session.remote = (loginOf "bob" 2).remote) ∧
      loggedIn.AddsAtomically .canonical 1 .succeeds (loginOf "bob" 2) := by
  obtain ⟨⟨node, member⟩, only⟩ := loggedIn_stored
  have may : loggedIn.MayAdd .canonical (loginOf "bob" 2) .succeeds :=
    ⟨by decide, fun other stored _ => only other stored⟩
  exact ⟨⟨node, member, only node member⟩,
    (add_atomic_iff UuidText.canonical_lawful UuidText.canonical_nulFree 1 .succeeds).mpr may⟩

/-- The segment is full when the second login is stored: the call fails, and the
session of the first login is gone. -/
theorem failedLogin_evicts :
    ¬ loggedIn.AddsAtomically .canonical 1 .failsAtInsert (loginOf "bob" 2) := by
  rw [addsAtomically_failsAtInsert]
  intro absent
  obtain ⟨⟨node, member⟩, only⟩ := loggedIn_stored
  exact absent node member (only node member)

end SharedMemSessionsCache

end Cdcm.SessionsCache
