import Cdcm.Lib.Machine
import Cdcm.SessionsCache.SharedMem

/-!
# The session cache between processes

Every region that holds the lock is one step.  A look-up is two of them, which hand
an iterator from one to the other, and so is `clean`.  What a step does with an
iterator whose element is gone is undefined, so such a step has no result.
-/

namespace Cdcm.SessionsCache

open OrderedIndex MultiIndex Machine

/-- A `get_session_by` or `touch_by` between its two regions: what it looks for, and
the element that its iterator designates. -/
structure Lookup where
  tag : KeyTag
  key : ByteString
  iterator : Nat
  deriving DecidableEq, Repr

/-- A `clean` between its two regions. -/
structure Cleaning where
  now : Int
  tillNow : Option (Node SharedMemSessionElement)

/-- The cache, with the calls that are between their regions. -/
structure Shared where
  cache : SharedMemSessionsCache
  lookups : List Lookup
  cleaning : Option Cleaning

/-- The regions, with what their calls pass and read. -/
inductive Region where
  | add (now : Int) (allocation : Allocation) (session : Session)
  | lookup (tag : KeyTag) (key : ByteString)
  | update (position : Nat) (now : Int)
  | removeById (ids : ByteString)
  | flushAllEntries
  | tillNow (now : Int)
  | eraseTill

/-- A session's key of a look-up. -/
def Session.keyOf (uuidText : UuidText) (tag : KeyTag) (session : Session) : ByteString :=
  match tag with
  | .id => session.idstr uuidText
  | .remote => session.remote

namespace Shared

variable (uuidText : UuidText)

/-- A new cache, which nobody uses yet. -/
def start (sessionIdleTimeout : Nat) : Shared := ⟨.empty sessionIdleTimeout, [], none⟩

/-- The elements in front of an iterator, all of them when it is the end. -/
def upTo (cache : SharedMemSessionsCache) :
    Option (Node SharedMemSessionElement) → List (Node SharedMemSessionElement)
  | none => cache.map.index Tag.expiration
  | some till => before till.addr (cache.map.index Tag.expiration)

/-- An iterator is the end or designates an element. -/
def Designates (cache : SharedMemSessionsCache) :
    Option (Node SharedMemSessionElement) → Prop
  | none => True
  | some till => (cache.map.at? till.addr).isSome

instance (cache : SharedMemSessionsCache) (till : Option (Node SharedMemSessionElement)) :
    Decidable (Designates cache till) :=
  match till with
  | none => inferInstanceAs (Decidable True)
  | some _ => inferInstanceAs (Decidable (_ = true))

/-- One region. -/
def step (shared : Shared) : Region → Option Shared
  | .add now allocation session =>
      some { shared with cache := (shared.cache.add uuidText now allocation session).1 }
  | .lookup tag key =>
      match shared.cache.find tag key with
      | none => some shared
      | some node => some { shared with lookups := shared.lookups ++ [⟨tag, key, node.addr⟩] }
  | .update position now => do
      let lookup ← shared.lookups[position]?
      let node ← shared.cache.map.at? lookup.iterator
      return { shared with
        cache := (shared.cache.update uuidText now node).1
        lookups := shared.lookups.eraseIdx position }
  | .removeById ids => some { shared with cache := (shared.cache.removeById ids).1 }
  | .flushAllEntries => some { shared with cache := shared.cache.flushAllEntries }
  | .tillNow now =>
      match shared.cleaning with
      | none => some { shared with cleaning := some ⟨now, shared.cache.tillNow now⟩ }
      | some _ => none
  | .eraseTill =>
      match shared.cleaning with
      | none => none
      | some cleaning =>
          if Designates shared.cache cleaning.tillNow then
            some { shared with
              cache := shared.cache.eraseTill cleaning.tillNow, cleaning := none }
          else none

/-- The elements that a region erases. -/
def erased (shared : Shared) : Region → List (Node SharedMemSessionElement)
  | .add _ allocation session =>
      if allocation = .failsAtLookup then []
      else (shared.cache.find .remote session.remote).toList
  | .removeById ids => (shared.cache.find .id ids).toList
  | .flushAllEntries => shared.cache.map.nodes
  | .eraseTill => shared.cleaning.elim [] fun cleaning => upTo shared.cache cleaning.tillNow
  | .lookup .. | .update .. | .tillNow _ => []

variable {uuidText} {shared next : Shared}

/-! ## The regions behind a look-up and of `clean` -/

theorem step_update {position : Nat} {now : Int}
    (stepped : shared.step uuidText (.update position now) = some next) :
    ∃ lookup found, shared.lookups[position]? = some lookup ∧
      shared.cache.map.at? lookup.iterator = some found ∧
      next = { shared with
        cache := (shared.cache.update uuidText now found).1
        lookups := shared.lookups.eraseIdx position } := by
  simp only [step, Option.bind_eq_bind, Option.bind_eq_some_iff, Option.pure_def,
    Option.some.injEq] at stepped
  obtain ⟨lookup, isLookup, found, isFound, rfl⟩ := stepped
  exact ⟨lookup, found, isLookup, isFound, rfl⟩

theorem step_tillNow {now : Int} (stepped : shared.step uuidText (.tillNow now) = some next) :
    shared.cleaning = none ∧
      next = { shared with cleaning := some ⟨now, shared.cache.tillNow now⟩ } := by
  rw [step] at stepped
  split at stepped
  next idle => exact ⟨idle, (Option.some.inj stepped).symm⟩
  next => contradiction

theorem step_eraseTill (stepped : shared.step uuidText .eraseTill = some next) :
    ∃ cleaning, shared.cleaning = some cleaning ∧ Designates shared.cache cleaning.tillNow ∧
      next = { shared with
        cache := shared.cache.eraseTill cleaning.tillNow, cleaning := none } := by
  rw [step] at stepped
  split at stepped
  next => contradiction
  next cleaning isCleaning =>
    obtain ⟨designates, erases⟩ := Option.ite_none_right_eq_some.mp stepped
    exact ⟨cleaning, isCleaning, designates, (Option.some.inj erases).symm⟩

/-! ## What a region does to the elements -/

/-- An update changes when an element expires, and nothing else. -/
theorem mem_update (uuidText : UuidText) {now : Int} {iterator : Nat}
    {found node : Node SharedMemSessionElement}
    (isFound : shared.cache.map.at? iterator = some found) :
    node ∈ (shared.cache.update uuidText now found).1.map ↔
      node = ⟨found.addr, shared.cache.renew now found.val⟩ ∨
        node ∈ shared.cache.map ∧ node.addr ≠ found.addr := by
  obtain ⟨member, hasAddr⟩ := Container.at?_eq_some.mp isFound
  apply Container.mem_modify (hasAddr ▸ isFound)
  intro other isOther apart
  rw [SharedMemSessionsCache.clash_renew]
  exact Container.clash_eq_false member isOther apart.symm

theorem update_kept (uuidText : UuidText) {now : Int} {iterator : Nat}
    {found node : Node SharedMemSessionElement}
    (isFound : shared.cache.map.at? iterator = some found) (member : node ∈ shared.cache.map) :
    ∃ kept ∈ (shared.cache.update uuidText now found).1.map, kept.addr = node.addr ∧
      kept.val.session = node.val.session := by
  by_cases same : node.addr = found.addr
  · obtain rfl := Container.eq_of_addr_eq member (Container.at?_eq_some.mp isFound).1 same
    exact ⟨_, (mem_update uuidText isFound).mpr (.inl rfl), rfl, rfl⟩
  · exact ⟨node, (mem_update uuidText isFound).mpr (.inr ⟨member, same⟩), rfl, rfl⟩

theorem update_origin (uuidText : UuidText) {now : Int} {iterator : Nat}
    {found node : Node SharedMemSessionElement}
    (isFound : shared.cache.map.at? iterator = some found)
    (member : node ∈ (shared.cache.update uuidText now found).1.map) :
    ∃ old ∈ shared.cache.map, old.val.session = node.val.session := by
  rcases (mem_update uuidText isFound).mp member with rfl | ⟨old, _⟩
  · exact ⟨found, (Container.at?_eq_some.mp isFound).1, rfl⟩
  · exact ⟨node, old, rfl⟩

theorem mem_eraseTill {till : Option (Node SharedMemSessionElement)}
    {node : Node SharedMemSessionElement} :
    node ∈ (shared.cache.eraseTill till).map ↔
      node ∈ shared.cache.map ∧ ∀ other ∈ upTo shared.cache till, node.addr ≠ other.addr := by
  cases till <;> exact Container.mem_foldl_erase

/-- Only stored elements are erased. -/
theorem mem_of_erased {region : Region} {node : Node SharedMemSessionElement}
    (isErased : node ∈ shared.erased region) : node ∈ shared.cache.map := by
  cases region with
  | add now allocation session =>
      rw [erased] at isErased
      split at isErased
      · exact absurd isErased List.not_mem_nil
      · exact (SharedMemSessionsCache.find_eq_some.mp (Option.mem_toList.mp isErased)).1
  | removeById ids =>
      exact (SharedMemSessionsCache.find_eq_some.mp (Option.mem_toList.mp isErased)).1
  | flushAllEntries => exact isErased
  | eraseTill =>
      rw [erased] at isErased
      cases isCleaning : shared.cleaning with
      | none =>
          rw [isCleaning] at isErased
          exact absurd isErased List.not_mem_nil
      | some cleaning =>
          rw [isCleaning, Option.elim_some] at isErased
          apply (Container.mem_index Tag.expiration).mp
          cases till : cleaning.tillNow with
          | none =>
              rw [till] at isErased
              exact isErased
          | some node =>
              rw [till] at isErased
              exact (List.takeWhile_subset _) isErased
  | lookup _ _ => exact absurd isErased List.not_mem_nil
  | update _ _ => exact absurd isErased List.not_mem_nil
  | tillNow _ => exact absurd isErased List.not_mem_nil

/-- An element that a region does not erase keeps its session and its place in
memory. -/
theorem step_kept {region : Region} (stepped : shared.step uuidText region = some next)
    {node : Node SharedMemSessionElement} (member : node ∈ shared.cache.map)
    (stays : ∀ other ∈ shared.erased region, other.addr ≠ node.addr) :
    ∃ kept ∈ next.cache.map, kept.addr = node.addr ∧
      kept.val.session = node.val.session := by
  cases region with
  | add now allocation session =>
      obtain rfl := Option.some.inj stepped
      by_cases early : allocation = .failsAtLookup
      · refine ⟨node, ?_, rfl, rfl⟩
        simp only [SharedMemSessionsCache.add, early, if_true]
        exact member
      · simp only [erased, early, if_false, Option.mem_toList] at stays
        have evicted : node ∈ (shared.cache.evict session.remote).map := by
          rw [SharedMemSessionsCache.evict]
          cases found : shared.cache.find .remote session.remote with
          | none => exact member
          | some old =>
              apply Container.mem_erase.mpr
              exact ⟨member, fun same => stays old found same.symm⟩
        refine ⟨node, ?_, rfl, rfl⟩
        simp only [SharedMemSessionsCache.add, early, if_false]
        split
        · exact evicted
        · cases accepted : ((shared.cache.evict session.remote).map.insert
              ⟨now + shared.cache.sessionIdleTimeout, toShared uuidText session⟩).2 with
          | false =>
              rw [Container.insert_of_refused accepted]
              exact evicted
          | true => exact (Container.mem_insert accepted).mpr (.inr evicted)
  | lookup tag key =>
      rw [step] at stepped
      split at stepped <;> obtain rfl := Option.some.inj stepped <;>
        exact ⟨node, member, rfl, rfl⟩
  | update position now =>
      obtain ⟨_, _, _, isFound, rfl⟩ := step_update stepped
      exact update_kept uuidText isFound member
  | removeById ids =>
      obtain rfl := Option.some.inj stepped
      simp only [erased, Option.mem_toList] at stays
      refine ⟨node, ?_, rfl, rfl⟩
      simp only [SharedMemSessionsCache.removeById]
      cases found : shared.cache.find .id ids with
      | none => exact member
      | some old =>
          apply Container.mem_erase.mpr
          exact ⟨member, fun same => stays old found same.symm⟩
  | flushAllEntries => exact absurd rfl (stays node member)
  | tillNow now =>
      obtain ⟨_, rfl⟩ := step_tillNow stepped
      exact ⟨node, member, rfl, rfl⟩
  | eraseTill =>
      obtain ⟨cleaning, isCleaning, _, rfl⟩ := step_eraseTill stepped
      rw [erased, isCleaning, Option.elim_some] at stays
      refine ⟨node, ?_, rfl, rfl⟩
      apply mem_eraseTill.mpr
      exact ⟨member, fun other isErased same => stays other isErased same.symm⟩

/-- What a region stores was stored before, or it is the session of an `add`. -/
theorem step_origin {region : Region} (stepped : shared.step uuidText region = some next)
    {node : Node SharedMemSessionElement} (member : node ∈ next.cache.map) :
    (∃ old ∈ shared.cache.map, old.val.session = node.val.session) ∨
      ∃ session, node.val.session = toShared uuidText session := by
  cases region with
  | add now allocation session =>
      obtain rfl := Option.some.inj stepped
      have evicted : ∀ stored ∈ (shared.cache.evict session.remote).map,
          stored ∈ shared.cache.map := fun stored isIn =>
        ((SharedMemSessionsCache.mem_evict _ stored).mp isIn).1
      simp only [SharedMemSessionsCache.add] at member
      split at member
      · exact .inl ⟨node, member, rfl⟩
      · split at member
        · exact .inl ⟨node, evicted node member, rfl⟩
        · cases accepted : ((shared.cache.evict session.remote).map.insert
              ⟨now + shared.cache.sessionIdleTimeout, toShared uuidText session⟩).2 with
          | false =>
              rw [Container.insert_of_refused accepted] at member
              exact .inl ⟨node, evicted node member, rfl⟩
          | true =>
              rcases (Container.mem_insert accepted).mp member with rfl | old
              · exact .inr ⟨session, rfl⟩
              · exact .inl ⟨node, evicted node old, rfl⟩
  | lookup tag key =>
      rw [step] at stepped
      split at stepped <;> obtain rfl := Option.some.inj stepped <;>
        exact .inl ⟨node, member, rfl⟩
  | update position now =>
      obtain ⟨_, _, _, isFound, rfl⟩ := step_update stepped
      exact .inl (update_origin uuidText isFound member)
  | removeById ids =>
      obtain rfl := Option.some.inj stepped
      exact .inl ⟨node, ((SharedMemSessionsCache.mem_removeById ids node).mp member).1, rfl⟩
  | flushAllEntries =>
      obtain rfl := Option.some.inj stepped
      exact absurd member Container.not_mem_empty
  | tillNow now =>
      obtain ⟨_, rfl⟩ := step_tillNow stepped
      exact .inl ⟨node, member, rfl⟩
  | eraseTill =>
      obtain ⟨_, _, _, rfl⟩ := step_eraseTill stepped
      exact .inl ⟨node, (mem_eraseTill.mp member).1, rfl⟩

/-! ## Look-ups -/

/-- A region disturbs no look-up: it erases no element that one has found, and when it
is one itself, its key stands for the same sessions when it is cut at a NUL byte. -/
def Undisturbed (shared : Shared) (region : Region) : Prop :=
  (∀ lookup ∈ shared.lookups, ∀ node ∈ shared.erased region,
      node.addr ≠ lookup.iterator) ∧
    match region with
    | .lookup tag key => shared.cache.ReadsKey tag key
    | _ => True

instance (shared : Shared) (region : Region) : Decidable (shared.Undisturbed region) :=
  match region with
  | .lookup tag key => inferInstanceAs (Decidable (_ ∧ shared.cache.ReadsKey tag key))
  | .add .. | .update .. | .removeById _ | .flushAllEntries | .tillNow _ | .eraseTill =>
      inferInstanceAs (Decidable (_ ∧ True))

/-- Every stored element is a session, and every iterator designates the element of its
key. -/
structure Held (uuidText : UuidText) (shared : Shared) : Prop where
  sessions : ∀ node ∈ shared.cache.map, ∃ session,
    node.val.session = toShared uuidText session
  iterators : ∀ lookup ∈ shared.lookups, ∃ node ∈ shared.cache.map,
    node.addr = lookup.iterator ∧
      SharedMemSessionsCache.keyOf lookup.tag node.val = lookup.key

/-- The calls between their regions are those from before, up to one that a look-up
adds. -/
theorem lookups_step {region : Region} (stepped : shared.step uuidText region = some next) :
    (∀ lookup ∈ next.lookups, lookup ∈ shared.lookups) ∨
      ∃ tag key node, region = .lookup tag key ∧ shared.cache.find tag key = some node ∧
        next = { shared with lookups := shared.lookups ++ [⟨tag, key, node.addr⟩] } := by
  cases region with
  | add now allocation session =>
      obtain rfl := Option.some.inj stepped
      exact .inl fun lookup member => member
  | lookup tag key =>
      rw [step] at stepped
      cases found : shared.cache.find tag key with
      | none =>
          rw [found] at stepped
          obtain rfl := Option.some.inj stepped
          exact .inl fun lookup member => member
      | some node =>
          rw [found] at stepped
          exact .inr ⟨tag, key, node, rfl, found, (Option.some.inj stepped).symm⟩
  | update position now =>
      obtain ⟨_, _, _, _, rfl⟩ := step_update stepped
      exact .inl fun lookup member => List.mem_of_mem_eraseIdx member
  | removeById ids =>
      obtain rfl := Option.some.inj stepped
      exact .inl fun lookup member => member
  | flushAllEntries =>
      obtain rfl := Option.some.inj stepped
      exact .inl fun lookup member => member
  | tillNow now =>
      obtain ⟨_, rfl⟩ := step_tillNow stepped
      exact .inl fun lookup member => member
  | eraseTill =>
      obtain ⟨_, _, _, rfl⟩ := step_eraseTill stepped
      exact .inl fun lookup member => member

/-- Elements of one session have the same keys. -/
theorem keyOf_congr {left right : SharedMemSessionElement} (same : left.session = right.session)
    (tag : KeyTag) :
    SharedMemSessionsCache.keyOf tag left = SharedMemSessionsCache.keyOf tag right := by
  cases tag with
  | id => exact congrArg SharedMemSession.uuid same
  | remote => exact congrArg SharedMemSession.remote same

theorem Held.step {region : Region} (held : shared.Held uuidText)
    (undisturbed : shared.Undisturbed region)
    (stepped : shared.step uuidText region = some next) : next.Held uuidText := by
  constructor
  · intro node member
    rcases step_origin stepped member with ⟨old, stored, same⟩ | new
    · obtain ⟨session, isSession⟩ := held.sessions old stored
      exact ⟨session, same.symm.trans isSession⟩
    · exact new
  · have keeps : ∀ lookup ∈ shared.lookups, ∃ node ∈ next.cache.map,
        node.addr = lookup.iterator ∧
          SharedMemSessionsCache.keyOf lookup.tag node.val = lookup.key := by
      intro lookup member
      obtain ⟨node, stored, hasAddr, hasKey⟩ := held.iterators lookup member
      have stays : ∀ other ∈ shared.erased region, other.addr ≠ node.addr := by
        intro other isErased
        rw [hasAddr]
        exact undisturbed.1 lookup member other isErased
      obtain ⟨kept, isKept, sameAddr, sameSession⟩ := step_kept stepped stored stays
      exact ⟨kept, isKept, sameAddr.trans hasAddr,
        (keyOf_congr sameSession lookup.tag).trans hasKey⟩
    intro lookup member
    rcases lookups_step stepped with old | ⟨tag, key, node, rfl, found, rfl⟩
    · exact keeps lookup (old lookup member)
    · rcases List.mem_append.mp member with old | new
      · exact keeps lookup old
      · obtain rfl := List.mem_singleton.mp new
        obtain ⟨stored, hasKey⟩ := SharedMemSessionsCache.find_eq_some.mp found
        have reads : shared.cache.ReadsKey tag key := undisturbed.2
        exact ⟨node, stored, rfl, (reads.iff stored).mp hasKey⟩

/-- The key of an element is the key of its session. -/
theorem keyOf_toShared {element : SharedMemSessionElement} {session : Session}
    (isSession : element.session = toShared uuidText session) (tag : KeyTag) :
    SharedMemSessionsCache.keyOf tag element = session.keyOf uuidText tag := by
  cases tag with
  | id => exact congrArg SharedMemSession.uuid isSession
  | remote => exact congrArg SharedMemSession.remote isSession

/-- Along every run in which nothing disturbs a look-up, the second region of each
finds its element stored and returns a session of its key. -/
theorem updates_act_on_stored (lawful : uuidText.Lawful) {sessionIdleTimeout : Nat}
    {regions : List Region}
    (run : Run (Shared.step uuidText) Undisturbed (.start sessionIdleTimeout) regions shared)
    {position : Nat} {lookup : Lookup} (pending : shared.lookups[position]? = some lookup)
    (now : Int) :
    ∃ node ∈ shared.cache.map, node.addr = lookup.iterator ∧
      (shared.step uuidText (.update position now)).isSome ∧
      ∃ session, (shared.cache.update uuidText now node).2 = some session ∧
        session.keyOf uuidText lookup.tag = lookup.key := by
  have held := run.invariant (Held uuidText)
    ⟨fun node member => absurd member Container.not_mem_empty,
      fun lookup member => absurd member List.not_mem_nil⟩
    fun state region next held undisturbed stepped => held.step undisturbed stepped
  obtain ⟨node, stored, hasAddr, hasKey⟩ :=
    held.iterators lookup (List.mem_of_getElem? pending)
  have designates := Container.at?_eq_some.mpr ⟨stored, hasAddr⟩
  obtain ⟨session, isSession⟩ := held.sessions node stored
  refine ⟨node, stored, hasAddr, ?_, session, ?_, ?_⟩
  · simp [step, pending, designates]
  · rw [SharedMemSessionsCache.update, isSession]
    exact ofShared_toShared uuidText lawful session
  · rw [← keyOf_toShared isSession, hasKey]

/-! ### A look-up that is overtaken -/

/-- A session of a host. -/
def sessionFor (host : String) (uuid : Uuid) : Session :=
  ⟨uuid, text host, ⟨[], text "user", text "pw", []⟩⟩

/-- One call looks up the session of the host `h`, and another host logs in. -/
def passingRegions : List Region :=
  [.add 0 .succeeds (sessionFor "h" 1), .lookup .remote (text "h"),
    .add 1 .succeeds (sessionFor "g" 2)]

theorem updates_act_on_stored_passing :
    ∃ shared, Run (Shared.step .canonical) Undisturbed (.start 60) passingRegions shared ∧
      ∃ lookup, shared.lookups[0]? = some lookup ∧
        ∃ node ∈ shared.cache.map, node.addr = lookup.iterator ∧
          (shared.step .canonical (.update 0 2)).isSome ∧
          ∃ session, (shared.cache.update .canonical 2 node).2 = some session ∧
            session.keyOf .canonical lookup.tag = lookup.key := by
  obtain ⟨shared, run, found⟩ := Run.exists_of_exec
    (fun shared : Shared => shared.lookups[0]?.isSome)
    (by decide +kernel : (exec (Shared.step .canonical) Undisturbed (.start 60)
      passingRegions).any _ = true)
  obtain ⟨lookup, pending⟩ := Option.isSome_iff_exists.mp found
  exact ⟨shared, run, lookup, pending,
    updates_act_on_stored UuidText.canonical_lawful run pending 2⟩

/-- The session is closed between the two regions of a look-up. -/
def overtakenRegions : List Region :=
  [.add 0 .succeeds (sessionFor "h" 1), .lookup .remote (text "h"),
    .removeById ((sessionFor "h" 1).idstr .canonical)]

/-- The second region of the look-up acts on an element that is gone. -/
theorem overtakenLookup_dangles :
    ∃ shared, Run (Shared.step .canonical) Unguarded (.start 60) overtakenRegions shared ∧
      ∃ lookup ∈ shared.lookups, shared.cache.map.at? lookup.iterator = none ∧
        ∀ now, shared.step .canonical (.update 0 now) = none := by
  obtain ⟨shared, run, dangling⟩ := Run.exists_of_exec
    (fun shared : Shared => decide (shared.lookups = [⟨.remote, text "h", 0⟩] ∧
      shared.cache.map.nodes = []))
    (by decide +kernel : (exec (Shared.step .canonical) Unguarded (.start 60)
      overtakenRegions).any _ = true)
  obtain ⟨isPending, isEmpty⟩ := of_decide_eq_true dangling
  have gone : shared.cache.map.at? 0 = none := by
    rw [Container.at?, isEmpty]
    rfl
  refine ⟨shared, run, ⟨.remote, text "h", 0⟩, ?_, gone, ?_⟩
  · rw [isPending]
    exact List.mem_singleton_self _
  · intro now
    simp [step, isPending, gone]

end Shared

end Cdcm.SessionsCache
