import Cdcm.Lib.MultiIndex
import Cdcm.SessionsCache.Session

/-!
# The shared-memory session cache

The class `shared_mem_sessions_cache`.  Keys of look-ups are rebuilt from C
strings, while stored strings keep their length; a method that holds the lock
twice is written as the two critical sections in sequence.
-/

namespace Cdcm.SessionsCache

open OrderedIndex MultiIndex

/-- `shared_mem_session_element`. -/
structure SharedMemSessionElement where
  expirationTime : Int
  session : SharedMemSession
  deriving DecidableEq, Repr

/-- The tags of the indices. -/
inductive Tag where
  | id
  | expiration
  | remote
  deriving DecidableEq, Repr

/-- The indices of `sessions`: unique by id, ordered by expiration time, unique
by remote. -/
@[reducible] def schema : Schema SharedMemSessionElement where
  Tag := Tag
  Key
    | .id => ByteString
    | .expiration => Int
    | .remote => ByteString
  key
    | .id, element => element.session.uuid
    | .expiration, element => element.expirationTime
    | .remote, element => element.session.remote
  order
    | .id => List.instLinearOrder
    | .expiration => Int.instLinearOrder
    | .remote => List.instLinearOrder
  unique
    | .id => true
    | .expiration => false
    | .remote => true
  tags := [.id, .expiration, .remote]
  complete tag := by cases tag <;> simp
  primary := .id

/-- `shared_mem_sessions_cache`. -/
structure SharedMemSessionsCache where
  map : Container schema
  sessionIdleTimeout : Nat

/-- The two keys that sessions are looked up by. -/
inductive KeyTag where
  | id
  | remote
  deriving DecidableEq, Repr

/-- What becomes of the allocations that `add` makes in the shared segment. -/
inductive Allocation where
  | succeeds
  | failsAtLookup
  | failsAtInsert
  deriving DecidableEq, Repr

namespace SharedMemSessionsCache

/-- The cache without sessions. -/
def empty (sessionIdleTimeout : Nat) : SharedMemSessionsCache :=
  ⟨.empty, sessionIdleTimeout⟩

/-- `find` with a key rebuilt from a C string. -/
def find (cache : SharedMemSessionsCache) (tag : KeyTag) (key : ByteString) :
    Option (Node SharedMemSessionElement) :=
  match tag with
  | .id => cache.map.find Tag.id (cStr key)
  | .remote => cache.map.find Tag.remote (cStr key)

/-- Give an element the expiration time that starts now. -/
def renew (cache : SharedMemSessionsCache) (now : Int)
    (element : SharedMemSessionElement) : SharedMemSessionElement :=
  { element with expirationTime := now + cache.sessionIdleTimeout }

section Operations

variable (uuidText : UuidText) (cache : SharedMemSessionsCache)

/-- `update`: the write-locked second half of a look-up. -/
def update (now : Int) (node : Node SharedMemSessionElement) :
    SharedMemSessionsCache × Option Session :=
  ({ cache with map := (cache.map.modify node.addr (cache.renew now)).1 },
    ofShared uuidText node.val.session)

/-- The first half of `add`: erase the element that the remote's key finds. -/
def evict (remote : ByteString) : SharedMemSessionsCache :=
  match cache.find .remote remote with
  | some node => { cache with map := cache.map.erase node.addr }
  | none => cache

/-- `add`. An insertion that is refused reports success as well. -/
def add (now : Int) (allocation : Allocation) (session : Session) :
    SharedMemSessionsCache × Bool :=
  if allocation = .failsAtLookup then (cache, false)
  else
    let evicted := cache.evict session.remote
    if allocation = .failsAtInsert then (evicted, false)
    else
      let element : SharedMemSessionElement :=
        ⟨now + cache.sessionIdleTimeout, toShared uuidText session⟩
      ({ evicted with map := (evicted.map.insert element).1 }, true)

/-- `get_session_by`. -/
def getSessionBy (tag : KeyTag) (now : Int) (key : ByteString) :
    SharedMemSessionsCache × Option Session :=
  match cache.find tag key with
  | none => (cache, none)
  | some node => cache.update uuidText now node

/-- `touch_by`. -/
def touchBy (tag : KeyTag) (now : Int) (key : ByteString) :
    SharedMemSessionsCache × Bool :=
  match cache.find tag key with
  | none => (cache, false)
  | some node => ((cache.update uuidText now node).1, true)

/-- `remove_by_id`. -/
def removeById (ids : ByteString) : SharedMemSessionsCache × Bool :=
  match cache.find .id ids with
  | none => (cache, false)
  | some node => ({ cache with map := cache.map.erase node.addr }, true)

/-- The read-locked half of `clean`: the first element that is not expired. -/
def tillNow (now : Int) : Option (Node SharedMemSessionElement) :=
  lowerBound (schema.key Tag.expiration) now (cache.map.index Tag.expiration)

/-- The write-locked half of `clean`: erase the elements in front of an
iterator, all of them when it is the end. -/
def eraseTill (till : Option (Node SharedMemSessionElement)) :
    SharedMemSessionsCache :=
  let expired := match till with
    | none => cache.map.index Tag.expiration
    | some node => before node.addr (cache.map.index Tag.expiration)
  { cache with map := expired.foldl (fun map node => map.erase node.addr) cache.map }

/-- `clean`. -/
def clean (now : Int) : SharedMemSessionsCache × Bool :=
  (cache.eraseTill (cache.tillNow now), true)

/-- `flush_all_entries`. -/
def flushAllEntries : SharedMemSessionsCache := { cache with map := .empty }

end Operations

/-! ## What the operations do to the stored elements -/

/-- The key of an element under which sessions are looked up. -/
def keyOf (tag : KeyTag) (element : SharedMemSessionElement) : ByteString :=
  match tag with
  | .id => element.session.uuid
  | .remote => element.session.remote

/-- An element as `touch_by` leaves it. -/
def touched (cache : SharedMemSessionsCache) (tag : KeyTag) (now : Int)
    (key : ByteString) (element : SharedMemSessionElement) :
    SharedMemSessionElement :=
  if keyOf tag element = cStr key then cache.renew now element else element

variable {uuidText : UuidText} {cache : SharedMemSessionsCache}

theorem unique_id : schema.unique Tag.id = true := rfl

theorem unique_remote : schema.unique Tag.remote = true := rfl

/-- Both keys of a look-up are unique. -/
theorem find_eq_some {tag : KeyTag} {key : ByteString}
    {node : Node SharedMemSessionElement} :
    cache.find tag key = some node ↔
      node ∈ cache.map ∧ keyOf tag node.val = cStr key := by
  cases tag with
  | id => exact Container.find_eq_some unique_id
  | remote => exact Container.find_eq_some unique_remote

theorem find_eq_none {tag : KeyTag} {key : ByteString} :
    cache.find tag key = none ↔
      ∀ node ∈ cache.map, keyOf tag node.val ≠ cStr key := by
  cases tag with
  | id => exact Container.find_eq_none
  | remote => exact Container.find_eq_none

/-- Renewing an element changes no unique key. -/
theorem clash_renew (now : Int) (element other : SharedMemSessionElement) :
    schema.clash (cache.renew now element) other = schema.clash element other :=
  rfl

/-- A look-up and a touch leave the same cache. -/
theorem getSessionBy_fst (tag : KeyTag) (now : Int) (key : ByteString) :
    (cache.getSessionBy uuidText tag now key).1 =
      (cache.touchBy uuidText tag now key).1 := by
  rw [getSessionBy, touchBy]
  cases cache.find tag key <;> rfl

/-- A touch changes the elements of the key and no others. -/
theorem mem_touchBy (tag : KeyTag) (now : Int) (key : ByteString)
    (node : Node SharedMemSessionElement) :
    node ∈ (cache.touchBy uuidText tag now key).1.map ↔
      ∃ old ∈ cache.map, node = ⟨old.addr, cache.touched tag now key old.val⟩ := by
  rw [touchBy]
  cases found : cache.find tag key with
  | none =>
      have untouched : ∀ old ∈ cache.map,
          cache.touched tag now key old.val = old.val := fun old member =>
        if_neg (find_eq_none.mp found old member)
      constructor
      · exact fun member => ⟨node, member, by rw [untouched node member]⟩
      · rintro ⟨old, member, rfl⟩
        rwa [untouched old member]
  | some first =>
      have member := (find_eq_some.mp found).1
      have noClash : ∀ other ∈ cache.map, other.addr ≠ first.addr →
          schema.clash (cache.renew now first.val) other.val = false := by
        intro other otherMem distinct
        rw [clash_renew]
        exact Container.clash_eq_false member otherMem distinct.symm
      cases tag with
      | id => exact Container.mem_modify_find unique_id found noClash node
      | remote => exact Container.mem_modify_find unique_remote found noClash node

theorem lookup_touchBy (tag : KeyTag) (now : Int) (key id : ByteString) :
    (cache.touchBy uuidText tag now key).1.map.lookup Tag.id id =
      (cache.map.lookup Tag.id id).map (cache.touched tag now key) := by
  refine Container.lookup_map unique_id (mem_touchBy tag now key) ?_ id
  intro element
  rw [touched]
  split <;> rfl

theorem mem_removeById (ids : ByteString) (node : Node SharedMemSessionElement) :
    node ∈ (cache.removeById ids).1.map ↔
      node ∈ cache.map ∧ node.val.session.uuid ≠ cStr ids := by
  rw [removeById]
  cases found : cache.find .id ids with
  | none => exact ⟨fun member => ⟨member, find_eq_none.mp found node member⟩, And.left⟩
  | some first => exact Container.mem_erase_find unique_id found node

theorem lookup_removeById (ids id : ByteString) :
    (cache.removeById ids).1.map.lookup Tag.id id =
      (cache.map.lookup Tag.id id).filter fun element =>
        element.session.uuid ≠ cStr ids := by
  refine Container.lookup_filter unique_id (fun node => ?_) id
  rw [mem_removeById, decide_eq_true_iff]

/-- `clean` keeps exactly the elements that are not expired. -/
theorem mem_clean (now : Int) (node : Node SharedMemSessionElement) :
    node ∈ (cache.clean now).1.map ↔
      node ∈ cache.map ∧ now ≤ node.val.expirationTime := by
  have nodup := cache.map.nodup_index Tag.expiration
  have sorted := cache.map.sorted Tag.expiration
  simp only [clean, eraseTill, Container.mem_foldl_erase]
  refine and_congr_right fun member => ?_
  have inIndex := (Container.mem_index Tag.expiration).mpr member
  cases found : cache.tillNow now with
  | none =>
      have expired := lt_of_lowerBound_eq_none _ found node inIndex
      exact ⟨fun apart => absurd rfl (apart node inIndex),
        fun alive => absurd alive (not_le.mpr expired)⟩
  | some first =>
      have inFront := mem_before_lowerBound _ sorted nodup found inIndex
      constructor
      · intro apart
        by_contra expired
        exact apart node (inFront.mpr (not_le.mp expired)) rfl
      · intro alive other otherMem sameAddr
        have stored := (List.takeWhile_subset _) otherMem
        obtain rfl := Container.eq_of_addr_eq member
          ((Container.mem_index Tag.expiration).mp stored) sameAddr
        exact absurd alive (not_le.mpr (inFront.mp otherMem))

theorem lookup_clean (now : Int) (id : ByteString) :
    (cache.clean now).1.map.lookup Tag.id id =
      (cache.map.lookup Tag.id id).filter fun element =>
        now ≤ element.expirationTime := by
  refine Container.lookup_filter unique_id (fun node => ?_) id
  rw [mem_clean, decide_eq_true_iff]

theorem mem_evict (remote : ByteString) (node : Node SharedMemSessionElement) :
    node ∈ (cache.evict remote).map ↔
      node ∈ cache.map ∧ node.val.session.remote ≠ cStr remote := by
  rw [evict]
  cases found : cache.find .remote remote with
  | none => exact ⟨fun member => ⟨member, find_eq_none.mp found node member⟩, And.left⟩
  | some first => exact Container.mem_erase_find unique_remote found node

theorem lookup_evict (remote id : ByteString) :
    (cache.evict remote).map.lookup Tag.id id =
      (cache.map.lookup Tag.id id).filter fun element =>
        element.session.remote ≠ cStr remote := by
  refine Container.lookup_filter unique_id (fun node => ?_) id
  rw [mem_evict, decide_eq_true_iff]

@[simp] theorem sessionIdleTimeout_evict (remote : ByteString) :
    (cache.evict remote).sessionIdleTimeout = cache.sessionIdleTimeout := by
  rw [evict]
  split <;> rfl

/-- Cut at its first NUL byte, a key still stands for the same sessions. -/
def ReadsKey (cache : SharedMemSessionsCache) (tag : KeyTag) (key : ByteString) : Prop :=
  ∀ node ∈ cache.map.index Tag.id,
    keyOf tag node.val = cStr key ↔ keyOf tag node.val = key

instance (tag : KeyTag) (key : ByteString) : Decidable (cache.ReadsKey tag key) :=
  inferInstanceAs (Decidable (∀ node ∈ cache.map.index Tag.id, _))

theorem ReadsKey.iff {tag : KeyTag} {key : ByteString} (reads : cache.ReadsKey tag key)
    {node : Node SharedMemSessionElement} (member : node ∈ cache.map) :
    keyOf tag node.val = cStr key ↔ keyOf tag node.val = key :=
  reads node ((Container.mem_index Tag.id).mpr member)

/-- Nothing is cut off a key without NUL bytes. -/
theorem ReadsKey.of_nulFree {tag : KeyTag} {key : ByteString} (nulFree : 0 ∉ key) :
    cache.ReadsKey tag key := by
  intro node _
  rw [cStr_of_zero_not_mem nulFree]

/-- The session is inserted, when nothing that stays clashes with it. -/
theorem insert_accepted {now : Int} {session : Session}
    (reads : cache.ReadsKey .remote session.remote)
    (ownId : ∀ node ∈ cache.map, node.val.session.uuid = session.idstr uuidText →
      node.val.session.remote = session.remote) :
    ((cache.evict session.remote).map.insert
      ⟨now + cache.sessionIdleTimeout, toShared uuidText session⟩).2 = true := by
  by_contra refused
  obtain ⟨other, member, clashes⟩ :=
    Container.insert_refused_iff.mp (Bool.eq_false_of_not_eq_true refused)
  obtain ⟨stored, otherRemote⟩ := (mem_evict _ other).mp member
  obtain ⟨tag, isUnique, equal⟩ := Schema.clash_eq_true.mp clashes
  cases tag with
  | id => exact otherRemote ((reads.iff stored).mpr (ownId other stored equal.symm))
  | expiration => contradiction
  | remote => exact otherRemote ((reads.iff stored).mpr equal.symm)

/-- When the id is new and the cut remote stands for the same session, `add` evicts
the elements of the remote and stores the session. -/
theorem lookup_add (now : Int) {session : Session}
    (newId : cache.map.lookup Tag.id (session.idstr uuidText) = none)
    (reads : cache.ReadsKey .remote session.remote) (id : ByteString) :
    (cache.add uuidText now .succeeds session).1.map.lookup Tag.id id =
      if id = session.idstr uuidText then
        some ⟨now + cache.sessionIdleTimeout, toShared uuidText session⟩
      else (cache.map.lookup Tag.id id).filter fun element =>
        element.session.remote ≠ session.remote := by
  have accepted := @insert_accepted uuidText cache now session reads fun node stored same =>
    absurd same (Container.lookup_eq_none.mp newId node stored)
  have evicted : (cache.evict session.remote).map.lookup Tag.id id =
      (cache.map.lookup Tag.id id).filter fun element =>
        element.session.remote ≠ session.remote := by
    rw [lookup_evict]
    cases found : cache.map.lookup Tag.id id with
    | none => rfl
    | some element =>
        obtain ⟨node, member, rfl, _⟩ := (Container.lookup_eq_some unique_id).mp found
        have same : node.val.session.remote = cStr session.remote ↔
            node.val.session.remote = session.remote := reads.iff member
        simp only [Option.filter_some, ne_eq, same]
  rw [← evicted]
  exact Container.lookup_insert unique_id accepted id

end SharedMemSessionsCache

end Cdcm.SessionsCache
