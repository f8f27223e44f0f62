import Cdcm.Lib.Machine
import Cdcm.SessionsCache.SharedMem

/-!
# The session cache as a finite map

The purpose of the cache, stated apart from its indices: a map from session ids
to sessions with an expiry, in which a remote has at most one session.  The
operations of the shared-memory cache follow the map as long as every key that is
looked up still stands for the same sessions when it is cut at a NUL byte.
-/

namespace Cdcm.SessionsCache

open OrderedIndex MultiIndex Machine

/-- A session and the time it expires at. -/
structure Entry where
  session : Session
  expiry : Int
  deriving DecidableEq, Repr

/-- The abstract cache: sessions under the text of their id. -/
abbrev SessionMap := ByteString → Option Entry

/-- The operations that clients of the cache execute, with the time each reads. -/
inductive Op where
  | add (now : Int) (session : Session)
  | get (tag : KeyTag) (now : Int) (key : ByteString)
  | touch (tag : KeyTag) (now : Int) (key : ByteString)
  | removeById (ids : ByteString)
  | clean (now : Int)
  deriving DecidableEq, Repr

/-- What an operation returns. -/
inductive Output where
  | session (found : Option Session)
  | flag (value : Bool)
  deriving DecidableEq, Repr

section Refinement

variable (uuidText : UuidText)

/-- Execute one operation of the cache. -/
def perform (cache : SharedMemSessionsCache) : Op → SharedMemSessionsCache × Output
  | .add now session =>
      let (next, added) := cache.add uuidText now .succeeds session
      (next, .flag added)
  | .get tag now key =>
      let (next, found) := cache.getSessionBy uuidText tag now key
      (next, .session found)
  | .touch tag now key =>
      let (next, touched) := cache.touchBy uuidText tag now key
      (next, .flag touched)
  | .removeById ids =>
      let (next, removed) := cache.removeById ids
      (next, .flag removed)
  | .clean now =>
      let (next, cleaned) := cache.clean now
      (next, .flag cleaned)

/-- The operations as a machine that never aborts. -/
def step (cache : SharedMemSessionsCache) (op : Op) :
    Option SharedMemSessionsCache :=
  some (perform uuidText cache op).1

namespace Entry

/-- The key of an entry under which it is looked up. -/
def keyOf (tag : KeyTag) (entry : Entry) : ByteString :=
  match tag with
  | .id => entry.session.idstr uuidText
  | .remote => entry.session.remote

/-- The element that stores an entry. -/
def toElement (entry : Entry) : SharedMemSessionElement :=
  ⟨entry.expiry, toShared uuidText entry.session⟩

end Entry

namespace SessionMap

/-- The map without sessions. -/
def empty : SessionMap := fun _ => none

/-- What an operation should do to the map. -/
def apply (idle : Nat) (map : SessionMap) (op : Op) : SessionMap := fun id =>
  match op with
  | .add now session =>
      if id = session.idstr uuidText then some ⟨session, now + idle⟩
      else (map id).filter fun entry => entry.session.remote ≠ session.remote
  | .get tag now key | .touch tag now key =>
      (map id).map fun entry =>
        if entry.keyOf uuidText tag = key then { entry with expiry := now + idle }
        else entry
  | .removeById ids => if id = ids then none else map id
  | .clean now => (map id).filter fun entry => now ≤ entry.expiry

/-- A session of the map under one of its keys. -/
def Holds (map : SessionMap) (tag : KeyTag) (key : ByteString)
    (session : Session) : Prop :=
  ∃ id entry, map id = some entry ∧ entry.keyOf uuidText tag = key ∧
    entry.session = session

/-- What an operation should return. -/
def Answers (map : SessionMap) : Op → Output → Prop
  | .add _ _, output => output = .flag true
  | .get tag _ key, output => ∃ found, output = .session found ∧
      ∀ session, found = some session ↔ map.Holds uuidText tag key session
  | .touch tag _ key, output => ∃ found, output = .flag found ∧
      (found = true ↔ ∃ session, map.Holds uuidText tag key session)
  | .removeById ids, output => output = .flag (map ids).isSome
  | .clean _, output => output = .flag true

end SessionMap

/-- The cache stores exactly the entries of a map. -/
def Represents (cache : SharedMemSessionsCache) (map : SessionMap) : Prop :=
  ∀ id, cache.map.lookup Tag.id id = (map id).map (Entry.toElement uuidText)

/-- The id of an added session is new. -/
def FreshId (cache : SharedMemSessionsCache) : Op → Prop
  | .add _ session => cache.map.lookup Tag.id (session.idstr uuidText) = none
  | _ => True

instance (cache : SharedMemSessionsCache) (op : Op) :
    Decidable (FreshId uuidText cache op) :=
  match op with
  | .add _ _ => inferInstanceAs (Decidable (_ = none))
  | .get .. | .touch .. | .removeById _ | .clean _ => inferInstanceAs (Decidable True)

/-- The key that an operation looks up stands for the same sessions when it is cut
at a NUL byte. -/
def ReadsKeys (cache : SharedMemSessionsCache) : Op → Prop
  | .add _ session => cache.ReadsKey .remote session.remote
  | .get tag _ key | .touch tag _ key => cache.ReadsKey tag key
  | .removeById key => cache.ReadsKey .id key
  | .clean _ => True

instance (cache : SharedMemSessionsCache) (op : Op) : Decidable (ReadsKeys cache op) :=
  match op with
  | .add .. | .get .. | .touch .. | .removeById _ =>
      inferInstanceAs (Decidable (cache.ReadsKey _ _))
  | .clean _ => inferInstanceAs (Decidable True)

variable {uuidText}

/-- Under a represented map, the stored elements are the entries. -/
theorem Represents.mem_iff {cache : SharedMemSessionsCache} {map : SessionMap}
    (represents : Represents uuidText cache map) (element : SharedMemSessionElement) :
    (∃ node ∈ cache.map, node.val = element) ↔
      ∃ id entry, map id = some entry ∧ entry.toElement uuidText = element := by
  constructor
  · rintro ⟨node, member, rfl⟩
    have stored := (Container.lookup_eq_some SharedMemSessionsCache.unique_id).mpr
      ⟨node, member, rfl, rfl⟩
    rw [represents] at stored
    obtain ⟨entry, found, equal⟩ := Option.map_eq_some_iff.mp stored
    exact ⟨_, entry, found, equal⟩
  · rintro ⟨id, entry, found, rfl⟩
    have stored : cache.map.lookup Tag.id id = some (entry.toElement uuidText) := by
      rw [represents, found, Option.map_some]
    obtain ⟨node, member, equal, _⟩ :=
      (Container.lookup_eq_some SharedMemSessionsCache.unique_id).mp stored
    exact ⟨node, member, equal⟩

/-- An entry is stored under the text of its id. -/
theorem Represents.idstr_eq {cache : SharedMemSessionsCache} {map : SessionMap}
    (represents : Represents uuidText cache map) {id : ByteString} {entry : Entry}
    (found : map id = some entry) : entry.session.idstr uuidText = id := by
  have stored : cache.map.lookup Tag.id id = some (entry.toElement uuidText) := by
    rw [represents, found, Option.map_some]
  obtain ⟨_, _, _, equal⟩ :=
    (Container.lookup_eq_some SharedMemSessionsCache.unique_id).mp stored
  exact equal

/-- A look-up finds the entry of the key. -/
theorem Represents.find_eq_some {cache : SharedMemSessionsCache} {map : SessionMap}
    (represents : Represents uuidText cache map) {tag : KeyTag} {key : ByteString}
    (reads : cache.ReadsKey tag key) (element : SharedMemSessionElement) :
    (∃ node, cache.find tag key = some node ∧ node.val = element) ↔
      ∃ id entry, map id = some entry ∧ entry.keyOf uuidText tag = key ∧
        entry.toElement uuidText = element := by
  have keys : ∀ entry : Entry,
      SharedMemSessionsCache.keyOf tag (entry.toElement uuidText) =
        entry.keyOf uuidText tag := by
    intro entry
    cases tag <;> rfl
  constructor
  · rintro ⟨node, found, rfl⟩
    obtain ⟨member, hasKey⟩ := SharedMemSessionsCache.find_eq_some.mp found
    obtain ⟨id, entry, inMap, equal⟩ := (represents.mem_iff node.val).mp ⟨node, member, rfl⟩
    refine ⟨id, entry, inMap, ?_, equal⟩
    rw [← keys, equal, (reads.iff member).mp hasKey]
  · rintro ⟨id, entry, inMap, hasKey, rfl⟩
    obtain ⟨node, member, equal⟩ := (represents.mem_iff _).mpr ⟨id, entry, inMap, rfl⟩
    refine ⟨node, SharedMemSessionsCache.find_eq_some.mpr ⟨member, ?_⟩, equal⟩
    exact (reads.iff member).mpr (by rw [equal, keys, hasKey])

@[simp] theorem sessionIdleTimeout_perform (cache : SharedMemSessionsCache) (op : Op) :
    (perform uuidText cache op).1.sessionIdleTimeout = cache.sessionIdleTimeout := by
  cases op with
  | add now session =>
      exact SharedMemSessionsCache.sessionIdleTimeout_evict session.remote
  | get tag now key =>
      simp only [perform, SharedMemSessionsCache.getSessionBy]
      split <;> rfl
  | touch tag now key =>
      simp only [perform, SharedMemSessionsCache.touchBy]
      split <;> rfl
  | removeById ids =>
      simp only [perform, SharedMemSessionsCache.removeById]
      split <;> rfl
  | clean now => rfl

/-- Touching an element touches the entry it stores. -/
theorem touched_toElement (cache : SharedMemSessionsCache) {tag : KeyTag} (now : Int)
    {key : ByteString} {entry : Entry}
    (reads : SharedMemSessionsCache.keyOf tag (entry.toElement uuidText) = cStr key ↔
      SharedMemSessionsCache.keyOf tag (entry.toElement uuidText) = key) :
    cache.touched tag now key (entry.toElement uuidText) =
      (if entry.keyOf uuidText tag = key then
        { entry with expiry := now + cache.sessionIdleTimeout } else entry).toElement
          uuidText := by
  simp only [SharedMemSessionsCache.touched, reads]
  cases tag <;> split <;> rename_i equal <;>
    simp only [SharedMemSessionsCache.keyOf, Entry.toElement, toShared] at equal <;>
    simp [Entry.keyOf, Entry.toElement, SharedMemSessionsCache.renew, equal]

/-- One operation follows the map. -/
theorem Represents.after_perform {cache : SharedMemSessionsCache} {map : SessionMap}
    (represents : Represents uuidText cache map) {op : Op}
    (fresh : FreshId uuidText cache op) (reads : ReadsKeys cache op) :
    Represents uuidText (perform uuidText cache op).1
      (map.apply uuidText cache.sessionIdleTimeout op) := by
  have touches : ∀ tag now key, cache.ReadsKey tag key →
      Represents uuidText (cache.touchBy uuidText tag now key).1
        (map.apply uuidText cache.sessionIdleTimeout (.touch tag now key)) := by
    intro tag now key readsKey id
    rw [SharedMemSessionsCache.lookup_touchBy, represents]
    simp only [SessionMap.apply]
    cases found : map id with
    | none => rfl
    | some entry =>
        obtain ⟨node, member, stored⟩ := (represents.mem_iff _).mpr ⟨id, entry, found, rfl⟩
        exact congrArg some
          (touched_toElement cache now (stored ▸ readsKey.iff member))
  cases op with
  | add now session =>
      intro id
      refine (SharedMemSessionsCache.lookup_add now fresh reads id).trans ?_
      simp only [SessionMap.apply]
      split
      · rfl
      · rw [represents, Option.filter_map]
        rfl
  | get tag now key =>
      have lookedUp := touches tag now key reads
      rw [← SharedMemSessionsCache.getSessionBy_fst] at lookedUp
      exact lookedUp
  | touch tag now key => exact touches tag now key reads
  | removeById ids =>
      intro id
      refine (SharedMemSessionsCache.lookup_removeById ids id).trans ?_
      rw [represents]
      simp only [SessionMap.apply]
      cases found : map id with
      | none => simp
      | some entry =>
          obtain ⟨node, member, stored⟩ := (represents.mem_iff _).mpr ⟨id, entry, found, rfl⟩
          have idText : (entry.toElement uuidText).session.uuid = id :=
            represents.idstr_eq found
          have cut : id = cStr ids ↔ id = ids := by
            rw [← idText, ← stored]
            exact reads.iff member
          simp only [Option.map_some, Option.filter_some, idText, ne_eq, cut]
          by_cases equal : id = ids <;> simp [equal]
  | clean now =>
      intro id
      refine (SharedMemSessionsCache.lookup_clean now id).trans ?_
      rw [represents, Option.filter_map]
      rfl

/-- One operation returns what the map answers. -/
theorem Represents.answers (lawful : uuidText.Lawful)
    {cache : SharedMemSessionsCache} {map : SessionMap}
    (represents : Represents uuidText cache map) {op : Op}
    (reads : ReadsKeys cache op) :
    map.Answers uuidText op (perform uuidText cache op).2 := by
  cases op with
  | add now session => rfl
  | get tag now key =>
      refine ⟨(cache.getSessionBy uuidText tag now key).2, rfl, fun session => ?_⟩
      have finds := represents.find_eq_some reads
      rw [SharedMemSessionsCache.getSessionBy]
      cases found : cache.find tag key with
      | none =>
          simp only [found] at finds
          refine ⟨fun missing => absurd missing (Option.some_ne_none _).symm, ?_⟩
          rintro ⟨id, entry, inMap, hasKey, -⟩
          obtain ⟨_, impossible, _⟩ := (finds _).mpr ⟨id, entry, inMap, hasKey, rfl⟩
          contradiction
      | some node =>
          obtain ⟨id, entry, inMap, hasKey, stored⟩ := (finds node.val).mp ⟨node, found, rfl⟩
          have returned : ofShared uuidText node.val.session = some entry.session := by
            rw [← stored]
            exact ofShared_toShared uuidText lawful entry.session
          simp only [SharedMemSessionsCache.update, returned, Option.some.injEq]
          constructor
          · rintro rfl
            exact ⟨id, entry, inMap, hasKey, rfl⟩
          · rintro ⟨otherId, other, otherInMap, otherKey, rfl⟩
            obtain ⟨_, sameNode, equal⟩ :=
              (finds _).mpr ⟨otherId, other, otherInMap, otherKey, rfl⟩
            obtain rfl := Option.some.inj (found.symm.trans sameNode)
            rw [equal] at returned
            exact Option.some.inj
              (returned.symm.trans (ofShared_toShared uuidText lawful other.session))
  | touch tag now key =>
      refine ⟨(cache.touchBy uuidText tag now key).2, rfl, ?_⟩
      have finds := represents.find_eq_some reads
      rw [SharedMemSessionsCache.touchBy]
      cases found : cache.find tag key with
      | none =>
          simp only [found] at finds
          refine ⟨fun missing => absurd missing Bool.false_ne_true, ?_⟩
          rintro ⟨_, id, entry, inMap, hasKey, -⟩
          obtain ⟨_, impossible, _⟩ := (finds _).mpr ⟨id, entry, inMap, hasKey, rfl⟩
          contradiction
      | some node =>
          obtain ⟨id, entry, inMap, hasKey, _⟩ := (finds node.val).mp ⟨node, found, rfl⟩
          exact ⟨fun _ => ⟨_, id, entry, inMap, hasKey, rfl⟩, fun _ => rfl⟩
  | removeById ids =>
      have finds := represents.find_eq_some reads
      change Output.flag (cache.removeById ids).2 = .flag (map ids).isSome
      rw [SharedMemSessionsCache.removeById]
      cases found : cache.find .id ids with
      | none =>
          cases inMap : map ids with
          | none => rfl
          | some entry =>
              obtain ⟨_, impossible, _⟩ := (finds _).mpr
                ⟨ids, entry, inMap, represents.idstr_eq inMap, rfl⟩
              rw [found] at impossible
              contradiction
      | some node =>
          obtain ⟨id, entry, inMap, hasKey, _⟩ := (finds node.val).mp ⟨node, found, rfl⟩
          obtain rfl : id = ids := (represents.idstr_eq inMap).symm.trans hasKey
          rw [inMap]
          rfl
  | clean now => rfl

theorem represents_empty (idle : Nat) :
    Represents uuidText (.empty idle) SessionMap.empty := by
  intro id
  exact @Container.lookup_empty _ schema Tag.id id

/-- Along every run that reads its keys, the cache stores the entries of the map
that executed the same operations. -/
theorem represents_run {idle : Nat} {ops : List Op} {cache : SharedMemSessionsCache}
    (run : Run (step uuidText)
      (fun state op => FreshId uuidText state op ∧ ReadsKeys state op) (.empty idle) ops cache) :
    cache.sessionIdleTimeout = idle ∧
      Represents uuidText cache
        (ops.foldl (SessionMap.apply uuidText idle) SessionMap.empty) := by
  refine run.history (fun events state => state.sessionIdleTimeout = idle ∧
    Represents uuidText state
      (events.foldl (SessionMap.apply uuidText idle) SessionMap.empty))
    ⟨rfl, represents_empty idle⟩ ?_
  rintro events state op next ⟨timeout, represents⟩ ⟨fresh, reads⟩ stepped
  obtain rfl := Option.some.inj stepped
  refine ⟨(sessionIdleTimeout_perform state op).trans timeout, ?_⟩
  rw [List.foldl_concat, ← timeout]
  rw [← timeout] at represents
  exact represents.after_perform fresh reads

/-- Refinement of the finite map: after any sequence of operations with fresh ids,
each of which reads its key, the cache holds exactly the entries of the map, and
whatever reads its key next returns what the map answers. -/
theorem cache_refines_map (lawful : uuidText.Lawful) {idle : Nat} {ops : List Op}
    {cache : SharedMemSessionsCache}
    (run : Run (step uuidText)
      (fun state op => FreshId uuidText state op ∧ ReadsKeys state op) (.empty idle) ops cache) :
    Represents uuidText cache
        (ops.foldl (SessionMap.apply uuidText idle) SessionMap.empty) ∧
      ∀ op : Op, ReadsKeys cache op →
        (ops.foldl (SessionMap.apply uuidText idle) SessionMap.empty).Answers uuidText op
          (perform uuidText cache op).2 := by
  obtain ⟨_, represents⟩ := represents_run run
  exact ⟨represents, fun op reads => represents.answers lawful reads⟩

/-- A log-in to `h`, and then a look-up of `h`. -/
theorem cache_refines_map_login :
    ∃ cache, Run (step .canonical)
        (fun state op => FreshId .canonical state op ∧ ReadsKeys state op) (.empty 60)
        [.add 0 ⟨1, text "h", ⟨[], text "alice", text "a", []⟩⟩] cache ∧
      SessionMap.Answers .canonical
        (SessionMap.apply .canonical 60 SessionMap.empty
          (.add 0 ⟨1, text "h", ⟨[], text "alice", text "a", []⟩⟩))
        (.get .remote 1 (text "h")) (perform .canonical cache (.get .remote 1 (text "h"))).2 := by
  refine (Run.exists_of_exec (fun cache : SharedMemSessionsCache =>
    decide (ReadsKeys cache (.get .remote 1 (text "h")))) (by decide +kernel)).imp
      fun cache ⟨run, checked⟩ => ⟨run, ?_⟩
  exact (cache_refines_map UuidText.canonical_lawful run).2 _ (of_decide_eq_true checked)

end Refinement

/-! ## A remote with a NUL byte -/

/-- Log-ins to `h` and to `h`, a NUL byte, `x`. -/
def nulRemoteOps : List Op :=
  [.add 0 ⟨1, text "h", ⟨[], text "alice", text "a", []⟩⟩,
    .add 0 ⟨2, text "h" ++ 0 :: text "x", ⟨[], text "bob", text "b", []⟩⟩]

/-- The second log-in evicts the session of the first, whose remote is a
different one: the cache finds no session for `h` where the map has one. -/
theorem nulRemoteOps_evicts :
    ∃ cache, Run (step .canonical) (FreshId .canonical) (.empty 60) nulRemoteOps cache ∧
      (perform .canonical cache (.get .remote 1 (text "h"))).2 = .session none ∧
      (nulRemoteOps.foldl (SessionMap.apply .canonical 60) SessionMap.empty).Holds
        .canonical .remote (text "h") ⟨1, text "h", ⟨[], text "alice", text "a", []⟩⟩ := by
  refine ⟨_, .snoc (.snoc .nil ?_ rfl) ?_ rfl, ?_, UuidText.canonical.toString 1,
    ⟨⟨1, text "h", ⟨[], text "alice", text "a", []⟩⟩, 60⟩, ?_, rfl, rfl⟩
  all_goals decide +kernel

end Cdcm.SessionsCache
